import Krb5Rs.Cockroach
import Krb5Rs.ReplicationSound

/-!
# Lockout rows and their principals

What a transaction of the CockroachDB store does to the rows that are live. A
live lockout row has a live principal as long as lockouts are reported for live
principals only and no locked principal is renamed.
-/

namespace Krb5Rs

open Wire (Bytes bind_eq_ok)
open Utf8 (Str)

namespace Cockroach

def LiveAt (s : Cockroach) (key : NameKey) : Prop := (live (s.principals key)).isSome

def LockedAt (s : Cockroach) (key : NameKey) : Prop := (live (s.lockouts key)).isSome

instance (s : Cockroach) (key : NameKey) : Decidable (s.LiveAt key) :=
  inferInstanceAs (Decidable ((live (s.principals key)).isSome = true))

instance (s : Cockroach) (key : NameKey) : Decidable (s.LockedAt key) :=
  inferInstanceAs (Decidable ((live (s.lockouts key)).isSome = true))

/-- No live lockout row without a live principal. -/
def Attached (s : Cockroach) : Prop := ∀ key, s.LockedAt key → s.LiveAt key

/-! ## What the writes do -/

theorem live_bury {ρ : Type} (change : ρ → ρ) (row : Option (Flagged ρ)) : live (bury change row) = none := by
  cases row with
  | none => rfl
  | some row =>
    obtain ⟨cols, deleted⟩ := row
    cases deleted <;> rfl

theorem live_map {ρ : Type} (cols : ρ) {row : Option (Flagged ρ)} (h : (live row).isSome) :
    live (row.map fun _ => ⟨cols, false⟩) = some cols := by
  cases row with
  | none => cases h
  | some row => rfl

variable {s t u : Cockroach} {key : NameKey} {create : Bool}

theorem liveAt_putRow {k : NameKey} (key : NameKey) (cols : PrincipalCols (List Str)) (create : Bool)
    (h : s.LiveAt k) : (s.putRow key ⟨cols, false⟩ create).LiveAt k := by
  unfold LiveAt at *
  by_cases hk : k = key
  · subst hk
    cases create with
    | true => simp [putRow, live]
    | false => simp [putRow, live_map cols h]
  · cases create <;> simpa [putRow, Function.update_of_ne hk] using h

theorem insertKeys_eq_ok {keys : List KeyCols} (h : s.insertKeys key keys = .ok t) :
    t = { s with principalKeys := Function.update s.principalKeys key (s.principalKeys key ++ keys) } := by
  unfold insertKeys at h
  split at h
  · exact (Except.ok.inj h).symm
  · cases h

section
variable [Alphabet] {s t : Cockroach} {sp : StoredPrincipal}

theorem writePrincipal_eq_ok (h : s.writePrincipal sp create = .ok t) :
    ∃ name cols, encodePrincipalKey sp.name = .ok name ∧ principalFields id sp = .ok cols ∧
      t.principals = (s.putRow (sp.realm, name) ⟨cols, false⟩ create).principals ∧
      t.principalKeys = Function.update (s.putRow (sp.realm, name) ⟨cols, false⟩ create).principalKeys (sp.realm, name)
        ((s.putRow (sp.realm, name) ⟨cols, false⟩ create).principalKeys (sp.realm, name) ++ sp.keys.map (·.cols)) ∧
      t.lockouts = s.lockouts := by
  obtain ⟨name, hname, h⟩ := bind_eq_ok.mp h
  obtain ⟨cols, hcols, h⟩ := bind_eq_ok.mp h
  obtain ⟨u, hu, h⟩ := bind_eq_ok.mp h
  cases h
  obtain rfl := insertKeys_eq_ok hu
  refine ⟨name, cols, hname, hcols, rfl, rfl, ?_⟩
  cases create <;> rfl

structure Spares (s t : Cockroach) : Prop where
  live : ∀ key, s.LiveAt key → t.LiveAt key
  lockouts : t.lockouts = s.lockouts

omit [Alphabet] in
theorem Spares.lockedAt (h : Spares s t) : t.LockedAt key ↔ s.LockedAt key := by
  unfold LockedAt
  rw [h.lockouts]

theorem spares_writePrincipal (h : s.writePrincipal sp create = .ok t) : Spares s t := by
  obtain ⟨name, cols, -, -, hprincipals, -, hlockouts⟩ := writePrincipal_eq_ok h
  refine ⟨?_, hlockouts⟩
  intro key hlive
  have hput := liveAt_putRow (sp.realm, name) cols create hlive
  unfold LiveAt at hput ⊢
  rwa [hprincipals]

theorem insertPrincipal_eq_ok (h : s.insertPrincipal sp = .ok t) :
    Spares s t ∧ ∃ name, encodePrincipalKey sp.name = .ok name ∧ ¬ s.LiveAt (sp.realm, name) ∧
      ∃ create, s.writePrincipal sp create = .ok t := by
  obtain ⟨name, hname, h⟩ := bind_eq_ok.mp h
  unfold writeNew at h
  split at h
  · rename_i row hrow
    split at h
    · rename_i hdeleted
      refine ⟨spares_writePrincipal h, name, hname, ?_, false, h⟩
      simp [LiveAt, hrow, live, hdeleted]
    · cases h
  · rename_i hnone
    refine ⟨spares_writePrincipal h, name, hname, ?_, true, h⟩
    simp [LiveAt, hnone, live]

end

/-! ## Reading back -/

/-- A name without a row has no keys. -/
def Referenced (s : Cockroach) : Prop := ∀ key, s.principals key = none → s.principalKeys key = []

section
variable [Alphabet]

def asRead (sp : StoredPrincipal) : StoredPrincipal := { sp with keys := orderedKeys sp.keys }

variable {sp : StoredPrincipal} {key : Bytes} {s t : Cockroach}

theorem fromRows_fields {cols : PrincipalCols (List Str)} (hne : sp.name.nameString ≠ [])
    (hkey : encodePrincipalKey sp.name = .ok key) (hcols : principalFields id sp = .ok cols) :
    fromRows (sp.realm, key) cols (newestFirst (sp.keys.map (·.cols))) = .ok (asRead sp) := by
  obtain ⟨life, hlife, hcols⟩ := bind_eq_ok.mp hcols
  obtain ⟨renew, hrenew, hcols⟩ := bind_eq_ok.mp hcols
  obtain ⟨epoch, hepoch, hcols⟩ := bind_eq_ok.mp hcols
  obtain ⟨tl, htl, hcols⟩ := bind_eq_ok.mp hcols
  cases hcols
  rw [newestFirst_cols]
  refine bind_eq_ok.mpr ⟨_, Sql.toI32_toInt64 _ _, ?_⟩
  refine bind_eq_ok.mpr ⟨_, decode_encodePrincipalKey hne hkey, ?_⟩
  refine bind_eq_ok.mpr ⟨_, Sql.toU32_ofU32 _ _, ?_⟩
  refine bind_eq_ok.mpr ⟨_, Sql.optional_toU64 _ hlife, ?_⟩
  refine bind_eq_ok.mpr ⟨_, Sql.optional_toU64 _ hrenew, ?_⟩
  refine bind_eq_ok.mpr ⟨_, Sql.toU64_ofU64 _ hepoch, ?_⟩
  refine bind_eq_ok.mpr ⟨_, tlFromColumn_tlColumn _ htl, ?_⟩
  exact bind_eq_ok.mpr ⟨_, mapM_keyFromCols _ _ _, rfl⟩

inductive Writes (s : Cockroach) (sp : StoredPrincipal) (t : Cockroach) : Prop
  | inserted : s.insertPrincipal sp = .ok t → Writes s sp t
  | updated {name : Bytes} : encodePrincipalKey sp.name = .ok name → s.LiveAt (sp.realm, name) →
      s.writePrincipal sp false = .ok t → Writes s sp t

theorem rows_of_writePrincipal (hkey : encodePrincipalKey sp.name = .ok key)
    (hnew : create = true → s.principalKeys (sp.realm, key) = [])
    (hold : create = false → (s.principals (sp.realm, key)).isSome) (h : s.writePrincipal sp create = .ok t) :
    ∃ cols, principalFields id sp = .ok cols ∧ live (t.principals (sp.realm, key)) = some cols ∧
      t.principalKeys (sp.realm, key) = sp.keys.map (·.cols) ∧ ((sp.keys.map (·.cols)).map (·.index)).Nodup := by
  obtain ⟨name, hname, h⟩ := bind_eq_ok.mp h
  cases hkey.symm.trans hname
  obtain ⟨cols, hcols, h⟩ := bind_eq_ok.mp h
  obtain ⟨u, hu, h⟩ := bind_eq_ok.mp h
  cases h
  have hempty : (s.putRow (sp.realm, key) ⟨cols, false⟩ create).principalKeys (sp.realm, key) = [] := by
    cases create with
    | true => simpa [putRow] using hnew rfl
    | false => simp [putRow]
  refine ⟨cols, hcols, ?_, ?_, ?_⟩
  · obtain rfl := insertKeys_eq_ok hu
    cases create with
    | true => simp [putRow, logged, live]
    | false =>
      obtain ⟨row, hrow⟩ := Option.isSome_iff_exists.mp (hold rfl)
      simp [putRow, logged, live, hrow]
  · obtain rfl := insertKeys_eq_ok hu
    simp [logged, hempty]
  · unfold insertKeys at hu
    split at hu
    · rename_i hnodup
      rwa [hempty] at hnodup
    · cases hu

theorem rows_of_writes (hs : s.Referenced) (hkey : encodePrincipalKey sp.name = .ok key) (h : Writes s sp t) :
    ∃ cols, principalFields id sp = .ok cols ∧ live (t.principals (sp.realm, key)) = some cols ∧
      t.principalKeys (sp.realm, key) = sp.keys.map (·.cols) ∧ ((sp.keys.map (·.cols)).map (·.index)).Nodup := by
  cases h with
  | inserted h =>
    obtain ⟨name, hname, h⟩ := bind_eq_ok.mp h
    cases hkey.symm.trans hname
    unfold writeNew at h
    split at h
    · rename_i row hrow
      split at h
      · exact rows_of_writePrincipal hkey (by simp) (fun _ => by rw [hrow]; rfl) h
      · cases h
    · rename_i hnone
      exact rows_of_writePrincipal hkey (fun _ => hs _ hnone) (by simp) h
  | updated hname hlive h =>
    cases hkey.symm.trans hname
    refine rows_of_writePrincipal hkey (by simp) ?_ h
    intro _
    rw [Option.isSome_iff_ne_none]
    intro hnone
    rw [LiveAt, hnone] at hlive
    cases hlive

theorem stored_of_writes (hs : s.Referenced) (hne : sp.name.nameString ≠ [])
    (hkey : encodePrincipalKey sp.name = .ok key) (h : Writes s sp t) :
    t.stored (sp.realm, key) = .ok (some (asRead sp)) := by
  obtain ⟨cols, hcols, hlive, hkeys, -⟩ := rows_of_writes hs hkey h
  rw [stored, hlive, Sql.optional, hkeys, fromRows_fields hne hkey hcols]
  rfl

end

/-! ## Effects of transactions -/

/-- Transactions that leave no lockout behind: principals stay live, a lockout is lifted, or a
principal goes together with its lockout. -/
inductive Tame (s : Cockroach) : Cockroach → Prop
  | spared {t : Cockroach} : Spares s t → Tame s t
  | lifted {t u : Cockroach} (key : NameKey) : Spares s t → u.principals = t.principals →
      (∀ k, u.LockedAt k ↔ k ≠ key ∧ t.LockedAt k) → Tame s u
  | deleted {u : Cockroach} (key : NameKey) : (∀ k, u.LiveAt k ↔ k ≠ key ∧ s.LiveAt k) →
      (∀ k, u.LockedAt k ↔ k ≠ key ∧ s.LockedAt k) → Tame s u

theorem Tame.lockedAt (h : Tame s t) (hl : t.LockedAt key) : s.LockedAt key := by
  cases h with
  | spared h => exact h.lockedAt.mp hl
  | lifted k h _ hu => exact h.lockedAt.mp ((hu key).mp hl).2
  | deleted k _ hu => exact ((hu key).mp hl).2

theorem Tame.attached (h : Tame s t) (hs : Attached s) : Attached t := by
  intro key hl
  have hlive := hs key (h.lockedAt hl)
  cases h with
  | spared h => exact h.live key hlive
  | lifted k h hu _ =>
    have := h.live key hlive
    rwa [LiveAt, ← hu] at this
  | deleted k hu hlocked => exact (hu key).mpr ⟨((hlocked key).mp hl).1, hlive⟩

theorem liveAt_bury (s : Cockroach) (key : NameKey) (change : PrincipalCols (List Str) → PrincipalCols (List Str))
    (hu : u.principals = Function.update s.principals key (bury change (s.principals key))) (k : NameKey) :
    u.LiveAt k ↔ k ≠ key ∧ s.LiveAt k := by
  unfold LiveAt
  rw [hu]
  by_cases hk : k = key
  · subst hk
    simp [live_bury]
  · simp [hk]

theorem lockedAt_liftLockout (s : Cockroach) (key k : NameKey) :
    (s.liftLockout key).LockedAt k ↔ k ≠ key ∧ s.LockedAt k := by
  unfold liftLockout
  split
  · unfold LockedAt
    by_cases hk : k = key
    · subst hk
      simp [logged, live_bury]
    · simp [logged, hk]
  · rename_i hnone
    by_cases hk : k = key
    · subst hk
      simpa [LockedAt] using hnone
    · simp [hk]

@[simp] theorem principals_liftLockout (s : Cockroach) (key : NameKey) :
    (s.liftLockout key).principals = s.principals := by
  unfold liftLockout
  split <;> rfl

theorem principalKeys_liftLockout (s : Cockroach) (key : NameKey) :
    (s.liftLockout key).principalKeys = s.principalKeys := by
  unfold liftLockout
  split <;> rfl

section
variable [Alphabet] {s t : Cockroach} {name : PrincipalName} {sp : StoredPrincipal}

theorem tame_deletePrincipal {r : TxReadings} {realm : Str} {b : Bool}
    (h : s.deletePrincipal r name realm = .ok (t, b)) : Tame s t := by
  obtain ⟨key, -, h⟩ := bind_eq_ok.mp h
  split at h
  · obtain ⟨rfl, -⟩ := Prod.mk.inj (Except.ok.inj h)
    refine .deleted (realm, key) ?_ ?_
    · intro k
      exact liveAt_bury s (realm, key) _ (principals_liftLockout _ _) k
    · intro k
      exact lockedAt_liftLockout _ (realm, key) k
  · obtain ⟨rfl, -⟩ := Prod.mk.inj (Except.ok.inj h)
    exact .spared ⟨fun _ hk => hk, rfl⟩

theorem reportLockout_rows {l : LockoutRecord} {key : Bytes} (hkey : encodePrincipalKey l.name = .ok key)
    (h : s.reportLockout l = .ok t) :
    t.principals = s.principals ∧ ∀ k, t.LockedAt k ↔ k = (l.realm, key) ∨ s.LockedAt k := by
  obtain ⟨key', hkey', h⟩ := bind_eq_ok.mp h
  cases hkey.symm.trans hkey'
  cases h
  refine ⟨rfl, ?_⟩
  intro k
  unfold LockedAt
  by_cases hk : k = (l.realm, key)
  · subst hk
    simp [logged, live]
  · simp [logged, hk]

omit [Alphabet] in
theorem Spares.putAuthState (h : Spares s t) (key : NameKey) (state : AuthState) :
    Spares s (t.putAuthState key state) := ⟨h.live, h.lockouts⟩

theorem require_eq_ok (h : s.require name key = .ok sp) : s.LiveAt key ∧ s.stored key = .ok (some sp) := by
  obtain ⟨found, hfound, h⟩ := bind_eq_ok.mp h
  cases found with
  | none => cases h
  | some found =>
    cases h
    refine ⟨?_, hfound⟩
    unfold LiveAt
    cases hl : live (s.principals key) with
    | none =>
      rw [stored, hl] at hfound
      cases hfound
    | some cols => rfl

section
variable [Crypto] {s t : Cockroach} {st : CockroachStore} {r : TxReadings} {name : PrincipalName} {realm : Str}

theorem spares_createRaw {raw : MitEntry} (h : s.createRaw st raw = .ok t) : Spares s t := by
  obtain ⟨_, -, h⟩ := bind_eq_ok.mp h
  obtain ⟨sp, -, h⟩ := bind_eq_ok.mp h
  obtain ⟨u, hu, h⟩ := bind_eq_ok.mp h
  have hspares := (insertPrincipal_eq_ok hu).1
  split at h
  · cases h
    exact hspares
  · obtain ⟨key, -, h⟩ := bind_eq_ok.mp h
    cases h
    exact hspares.putAuthState _ _

variable [Calendar]

theorem spares_createPrincipal {entry : PrincipalEntry} {changed : Option KerberosTime}
    (h : s.createPrincipal st r entry changed = .ok t) : Spares s t := by
  iterate 3 obtain ⟨_, -, h⟩ := bind_eq_ok.mp h
  exact (insertPrincipal_eq_ok h).1

theorem spares_updateRaw {f : MitEntry → MasterKeys → Except StoreError (Option MitEntry)} {b : Bool}
    (h : s.updateRaw st r name realm f = .ok (t, b)) : Spares s t := by
  obtain ⟨key, -, h⟩ := bind_eq_ok.mp h
  obtain ⟨keys, -, h⟩ := bind_eq_ok.mp h
  obtain ⟨sp, -, h⟩ := bind_eq_ok.mp h
  obtain ⟨raw, -, h⟩ := bind_eq_ok.mp h
  obtain ⟨new, -, h⟩ := bind_eq_ok.mp h
  cases new with
  | none =>
    obtain ⟨rfl, -⟩ := Prod.mk.inj (Except.ok.inj h)
    exact ⟨fun _ hk => hk, rfl⟩
  | some raw' =>
    obtain ⟨new, -, h⟩ := bind_eq_ok.mp h
    obtain ⟨u, hu, h⟩ := bind_eq_ok.mp h
    obtain ⟨rfl, -⟩ := Prod.mk.inj (Except.ok.inj h)
    split
    · exact spares_writePrincipal hu
    · exact (spares_writePrincipal hu).putAuthState _ _

theorem tame_updatePrincipal {f : PrincipalRecord → Except StoreError PrincipalRecord}
    (h : s.updatePrincipal st r name realm f = .ok (t, sp)) : Tame s t := by
  obtain ⟨key, -, h⟩ := bind_eq_ok.mp h
  obtain ⟨keys, -, h⟩ := bind_eq_ok.mp h
  obtain ⟨previous, -, h⟩ := bind_eq_ok.mp h
  obtain ⟨record, -, h⟩ := bind_eq_ok.mp h
  obtain ⟨changed, -, h⟩ := bind_eq_ok.mp h
  obtain ⟨sp', -, h⟩ := bind_eq_ok.mp h
  obtain ⟨u, hu, h⟩ := bind_eq_ok.mp h
  obtain ⟨rfl, -⟩ := Prod.mk.inj (Except.ok.inj h)
  split
  · exact .lifted (realm, key) (spares_writePrincipal hu) (principals_liftLockout u (realm, key))
      (lockedAt_liftLockout u (realm, key))
  · exact .spared (spares_writePrincipal hu)

theorem renameRaw_rows {f : MitEntry → MasterKeys → Except StoreError MitEntry} {key : Bytes}
    (hkey : encodePrincipalKey name = .ok key) (h : s.renameRaw st r name realm f = .ok u) :
    ∃ t, Spares s t ∧ s.LiveAt (realm, key) ∧ (∀ k, u.LiveAt k ↔ k ≠ (realm, key) ∧ t.LiveAt k) ∧
      u.lockouts = t.lockouts := by
  obtain ⟨key', hkey', h⟩ := bind_eq_ok.mp h
  cases hkey.symm.trans hkey'
  obtain ⟨keys, -, h⟩ := bind_eq_ok.mp h
  obtain ⟨sp, hsp, h⟩ := bind_eq_ok.mp h
  obtain ⟨source, -, h⟩ := bind_eq_ok.mp h
  obtain ⟨renamed, -, h⟩ := bind_eq_ok.mp h
  obtain ⟨dest, -, h⟩ := bind_eq_ok.mp h
  obtain ⟨t, ht, h⟩ := bind_eq_ok.mp h
  obtain ⟨destKey, -, h⟩ := bind_eq_ok.mp h
  cases h
  refine ⟨t, (insertPrincipal_eq_ok ht).1, (require_eq_ok hsp).1, ?_, ?_⟩
  · intro k
    apply liveAt_bury t (realm, key) fun cols => { cols with modTime := some r.now }
    unfold moved
    split <;> rfl
  · unfold moved
    split <;> rfl

end

end

/-! ## Runs -/

inductive Event [Alphabet]
  | create (st : CockroachStore) (r : TxReadings) (entry : PrincipalEntry) (lastPwdChange : Option KerberosTime)
  | createRaw (st : CockroachStore) (raw : MitEntry)
  | update (st : CockroachStore) (r : TxReadings) (name : PrincipalName) (realm : Str)
      (f : PrincipalRecord → Except StoreError PrincipalRecord)
  | updateRaw (st : CockroachStore) (r : TxReadings) (name : PrincipalName) (realm : Str)
      (f : MitEntry → MasterKeys → Except StoreError (Option MitEntry))
  | rename (st : CockroachStore) (r : TxReadings) (name : PrincipalName) (realm : Str)
      (f : MitEntry → MasterKeys → Except StoreError MitEntry)
  | delete (r : TxReadings) (name : PrincipalName) (realm : Str)
  | report (record : LockoutRecord)

section
variable [Alphabet] [Crypto] [Calendar]

def transact (s : Cockroach) : Event → Except StoreError Cockroach
  | .create st r entry lastPwdChange => s.createPrincipal st r entry lastPwdChange
  | .createRaw st raw => s.createRaw st raw
  | .update st r name realm f => (s.updatePrincipal st r name realm f).map (·.1)
  | .updateRaw st r name realm f => (s.updateRaw st r name realm f).map (·.1)
  | .rename st r name realm f => s.renameRaw st r name realm f
  | .delete r name realm => (s.deletePrincipal r name realm).map (·.1)
  | .report record => s.reportLockout record

def step (s : Cockroach) (e : Event) : Cockroach :=
  match s.transact e with
  | .ok t => t
  | .error _ => s

omit [Alphabet] [Crypto] [Calendar] in
theorem map_eq_ok {ε α β : Type} {x : Except ε α} {f : α → β} {b : β} (h : x.map f = .ok b) : ∃ a, x = .ok a ∧ f a = b := by
  cases x with
  | error e => cases h
  | ok a => exact ⟨a, rfl, Except.ok.inj h⟩

def Event.wild : Event → Prop
  | .report _ | .rename .. => True
  | _ => False

variable {s t : Cockroach} {e : Event}

theorem tame_transact (hwild : ¬ e.wild) (h : s.transact e = .ok t) : Tame s t := by
  cases e with
  | create => exact .spared (spares_createPrincipal h)
  | createRaw => exact .spared (spares_createRaw h)
  | update =>
    obtain ⟨⟨t', sp⟩, h', rfl⟩ := map_eq_ok h
    exact tame_updatePrincipal h'
  | updateRaw =>
    obtain ⟨⟨t', b⟩, h', rfl⟩ := map_eq_ok h
    exact .spared (spares_updateRaw h')
  | delete =>
    obtain ⟨⟨t', b⟩, h', rfl⟩ := map_eq_ok h
    exact tame_deletePrincipal h'
  | rename | report => exact absurd trivial hwild

/-- Lockouts are reported for live principals, and a principal that is renamed is not locked. -/
def Heedful (s : Cockroach) : Event → Prop
  | .report record => ∀ key, encodePrincipalKey record.name = .ok key → s.LiveAt (record.realm, key)
  | .rename st r name realm f => ∀ key, encodePrincipalKey name = .ok key →
      (∃ t, s.renameRaw st r name realm f = .ok t) → ¬ s.LockedAt (realm, key)
  | _ => True

theorem attached_transact_iff (hs : Attached s) (h : s.transact e = .ok t) : Attached t ↔ s.Heedful e := by
  cases e with
  | report record =>
    obtain ⟨key, hkey, -⟩ := bind_eq_ok.mp h
    obtain ⟨hprincipals, hlocked⟩ := reportLockout_rows hkey h
    have hlive : ∀ k, t.LiveAt k ↔ s.LiveAt k := fun k => by rw [LiveAt, LiveAt, hprincipals]
    constructor
    · intro ht key' hkey'
      cases hkey.symm.trans hkey'
      exact (hlive _).mp (ht _ ((hlocked _).mpr (.inl rfl)))
    · intro hheed k hk
      rw [hlive]
      rcases (hlocked k).mp hk with rfl | hk
      · exact hheed key hkey
      · exact hs k hk
  | rename st r name realm f =>
    obtain ⟨key, hkey, -⟩ := bind_eq_ok.mp h
    obtain ⟨u, hspares, -, hlive, hlockouts⟩ := renameRaw_rows hkey h
    have hlocked : ∀ k, t.LockedAt k ↔ s.LockedAt k := fun k => by
      rw [← hspares.lockedAt, LockedAt, LockedAt, hlockouts]
    constructor
    · intro ht key' hkey' _ hl
      cases hkey.symm.trans hkey'
      exact ((hlive _).mp (ht _ ((hlocked _).mpr hl))).1 rfl
    · intro hheed k hk
      have hk := (hlocked k).mp hk
      apply (hlive k).mpr
      refine ⟨?_, hspares.live k (hs k hk)⟩
      rintro rfl
      exact hheed key hkey ⟨t, h⟩ hk
  | create | createRaw | update | updateRaw | delete =>
    exact ⟨fun _ => trivial, fun _ => (tame_transact (by simp [Event.wild]) h).attached hs⟩

/-- A principal that a transaction brings to life is not locked after it. -/
def StartsUnlocked (s t : Cockroach) : Prop := ∀ key, ¬ s.LiveAt key → t.LiveAt key → ¬ t.LockedAt key

theorem startsUnlocked_transact (hs : Attached s) (h : s.transact e = .ok t) : StartsUnlocked s t := by
  intro key hdead hlive hlocked
  have hold := fun h => hdead (hs key h)
  cases e with
  | report record =>
    obtain ⟨k, hk, -⟩ := bind_eq_ok.mp h
    obtain ⟨hprincipals, -⟩ := reportLockout_rows hk h
    rw [LiveAt, hprincipals] at hlive
    exact hdead hlive
  | rename st r name realm f =>
    obtain ⟨k, hk, -⟩ := bind_eq_ok.mp h
    obtain ⟨u, hspares, -, -, hlockouts⟩ := renameRaw_rows hk h
    rw [LockedAt, hlockouts] at hlocked
    exact hold (hspares.lockedAt.mp hlocked)
  | create | createRaw | update | updateRaw | delete =>
    exact hold ((tame_transact (by simp [Event.wild]) h).lockedAt hlocked)

def Always (P : Cockroach → Prop) : Cockroach → List Event → Prop
  | s, [] => P s
  | s, e :: es => P s ∧ Always P (s.step e) es

def EachStep (P : Cockroach → Event → Prop) : Cockroach → List Event → Prop
  | _, [] => True
  | s, e :: es => P s e ∧ EachStep P (s.step e) es

/-- A transaction that fails changes nothing and asks for no heed. -/
def HeedfulStep (s : Cockroach) (e : Event) : Prop := (∃ t, s.transact e = .ok t) → s.Heedful e

theorem attached_step_iff (hs : Attached s) : Attached (s.step e) ↔ s.HeedfulStep e := by
  unfold step HeedfulStep
  cases h : s.transact e with
  | error err => simpa using hs
  | ok t =>
    rw [attached_transact_iff hs h]
    simp

theorem startsUnlocked_step (hs : Attached s) : StartsUnlocked s (s.step e) := by
  unfold step
  cases h : s.transact e with
  | error err => exact fun key hdead hlive => absurd hlive hdead
  | ok t => exact startsUnlocked_transact hs h

theorem attached_run_iff (s : Cockroach) (es : List Event) (hs : Attached s) :
    Always Attached s es ↔ EachStep HeedfulStep s es := by
  induction es generalizing s with
  | nil => exact ⟨fun _ => trivial, fun _ => hs⟩
  | cons e es ih =>
    constructor
    · rintro ⟨-, hrest⟩
      have hnext : Attached (s.step e) := by
        cases es with
        | nil => exact hrest
        | cons => exact hrest.1
      exact ⟨(attached_step_iff hs).mp hnext, (ih _ hnext).mp hrest⟩
    · rintro ⟨hheed, hrest⟩
      exact ⟨hs, (ih _ ((attached_step_iff hs).mpr hheed)).mpr hrest⟩

theorem startsUnlocked_run {es : List Event} (h : Always Attached s es) :
    EachStep (fun s e => StartsUnlocked s (s.step e)) s es := by
  induction es generalizing s with
  | nil => trivial
  | cons e es ih => exact ⟨startsUnlocked_step h.1, ih h.2⟩

theorem lockouts_attached (s : Cockroach) (es : List Event) (hs : Attached s) :
    (Always Attached s es ↔ EachStep HeedfulStep s es) ∧
    (EachStep HeedfulStep s es → EachStep (fun s e => StartsUnlocked s (s.step e)) s es) :=
  ⟨attached_run_iff s es hs, fun h => startsUnlocked_run ((attached_run_iff s es hs).mpr h)⟩

end

/-! ## A lockout left behind -/

section
local instance cockroachNames : Alphabet := Alphabet.ascii
attribute [local instance] Crypto.toy
local instance cockroachCalendar : Calendar := ⟨fun _ => true⟩

def bareStored (name : PrincipalName) (keys : List StoredKey) : StoredPrincipal where
  name
  realm := ⟨[86], rfl⟩
  keys
  securityEpoch := 1

def newRealm : Cockroach :=
  match Cockroach.empty.writePrincipal
    (bareStored ⟨1, [⟨[75], rfl⟩, ⟨[77], rfl⟩]⟩ [⟨1, 18, 1, [1, 0, 9, 9], none, none⟩]) true with
  | .ok s => s
  | .error _ => Cockroach.empty

def realmAdmin : CockroachStore := ⟨⟨[86], rfl⟩, ⟨18, [9]⟩, none⟩

def readings : TxReadings := ⟨100, ⟨100, 100, 100⟩, fun _ => []⟩

def victor : PrincipalName := ⟨1, [⟨[118], rfl⟩]⟩

def createVictor : Event :=
  .create realmAdmin readings
    { name := victor, realm := ⟨[86], rfl⟩, securityEpoch := 1 } none

def reportVictor : Event := .report ⟨⟨[86], rfl⟩, victor, 90, none, ⟨[107], rfl⟩⟩

def deleteVictor : Event := .delete readings victor ⟨[86], rfl⟩

/-- The principal is deleted before the report of its lockout arrives; the next one of that name is locked. -/
theorem lockout_outlives_principal : Attached newRealm ∧
    ¬ Attached (((newRealm.step createVictor).step deleteVictor).step reportVictor) ∧
    ((((newRealm.step createVictor).step deleteVictor).step reportVictor).step createVictor).securityState 100 victor
      ⟨[86], rfl⟩ = .ok ⟨1, false, true⟩ := by
  refine ⟨?_, ?_, by decide +kernel⟩
  · intro key hlocked
    cases hlocked
  · intro h
    exact absurd (h (⟨[86], rfl⟩, [118]) (by decide +kernel)) (by decide +kernel)

/-- A report for the live principal, and its deletion, keep the rows attached. -/
theorem reported_then_deleted : Always Attached newRealm [createVictor, reportVictor, deleteVictor] := by
  apply (lockouts_attached newRealm [createVictor, reportVictor, deleteVictor] (by
    intro key hlocked
    cases hlocked)).1.mpr
  refine ⟨fun _ => trivial, ?_, fun _ => trivial, trivial⟩
  intro _ key hkey
  cases hkey.symm.trans (show encodePrincipalKey victor = .ok [118] from rfl)
  decide +kernel

end

end Cockroach

end Krb5Rs
