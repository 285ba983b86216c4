import Krb5Rs.Columns
import Krb5Rs.Lww
import Krb5Rs.Table

/-!
# The replica database

`changes.rs` of the Turso replica: a change is skipped as stale when the row
has its version or a newer one, and writes the row otherwise; a delete leaves a
tombstone. All the changes of a batch are applied in one transaction.
-/

namespace Krb5Rs

open Wire (Bytes)
open Utf8 (Str)

structure Versioned (ρ : Type) where
  cols : ρ
  version : ReplicationTs
  deleted : Bool

def Versioned.live {ρ : Type} (v : Versioned ρ) : Option ρ := if v.deleted then none else some v.cols

/-! ## The tables -/

inductive Applied
  | yes
  | stale
deriving Repr, DecidableEq

structure KeyRow where
  principalId : Nat
  cols : KeyCols

/-- The keys of a principal hang on its row number; there are none without a row. -/
structure Replica where
  principals : Table NameKey (Versioned (PrincipalCols Bytes))
  principalKeys : List KeyRow
  policies : Table Str (Versioned PolicyCols)
  lockouts : Table NameKey (Versioned LockoutCols)
  owned : ∀ row ∈ principalKeys, row.principalId ∈ principals.ids

namespace Replica

def empty : Replica where
  principals := .empty
  principalKeys := []
  policies := .empty
  lockouts := .empty
  owned := by simp

def updatePrincipal (r : Replica) (id : Nat) (c : Versioned (PrincipalCols Bytes)) : Replica where
  principals := r.principals.set id c
  principalKeys := r.principalKeys
  policies := r.policies
  lockouts := r.lockouts
  owned := by simpa using r.owned

def insertPrincipal (r : Replica) (key : NameKey) (c : Versioned (PrincipalCols Bytes)) (h : r.principals.find key = none) :
    Replica where
  principals := r.principals.insert key c h
  principalKeys := r.principalKeys
  policies := r.policies
  lockouts := r.lockouts
  owned := by
    intro row hrow
    rw [Table.ids_insert]
    exact List.mem_append_left _ (r.owned row hrow)

def deleteKeys (r : Replica) (id : Nat) : Replica :=
  { r with
    principalKeys := r.principalKeys.filter fun row => row.principalId ≠ id
    owned := fun row hrow => r.owned row (List.mem_of_mem_filter hrow) }

def keysOf (r : Replica) (id : Nat) : List KeyCols :=
  (r.principalKeys.filter fun row => row.principalId = id).map (·.cols)

def duplicateKey : StoreError :=
  .conflict "UNIQUE constraint failed: principal_keys.(principal_id, kvno, enctype)"

def insertKeys (r : Replica) (id : Nat) (h : id ∈ r.principals.ids) (keys : List KeyCols) :
    Except StoreError Replica :=
  if ((r.keysOf id ++ keys).map (·.index)).Nodup then
    .ok
      { r with
        principalKeys := r.principalKeys ++ keys.map (⟨id, ·⟩)
        owned := by
          intro row hrow
          rcases List.mem_append.mp hrow with hrow | hrow
          · exact r.owned row hrow
          · obtain ⟨k, -, rfl⟩ := List.mem_map.mp hrow
            exact h }
  else .error duplicateKey

/-! ## Applying changes -/

section
variable [Alphabet]

def upsertRow (r : Replica) (key : NameKey) (p : StoredPrincipal) (version : ReplicationTs) :
    Except StoreError (Replica × Applied) :=
  match h : r.principals.find key with
  | some row =>
    if version ≤ row.cols.version then .ok (r, .stale)
    else do
      let fields ← principalFields Sql.joinList p
      let r ← ((r.updatePrincipal row.id ⟨fields, version, false⟩).deleteKeys row.id).insertKeys row.id
        (by simpa [updatePrincipal, deleteKeys] using Table.mem_ids_of_find h) (p.keys.map (·.cols))
      .ok (r, .yes)
  | none => do
    let fields ← principalFields Sql.joinList p
    let r ← (r.insertPrincipal key ⟨fields, version, false⟩ h).insertKeys r.principals.nextId
      (by simp [insertPrincipal, Table.ids_insert]) (p.keys.map (·.cols))
    .ok (r, .yes)

def upsertPrincipal (r : Replica) (p : StoredPrincipal) (version : ReplicationTs) :
    Except StoreError (Replica × Applied) := do
  let name ← encodePrincipalKey p.name
  r.upsertRow (p.realm, name) p version

/-- The columns of a tombstone for a principal that was never seen. -/
def noPrincipal (name : PrincipalName) : PrincipalCols Bytes where
  nameType := name.nameType.toInt64
  attributes := 0
  maxLife := none
  maxRenewableLife := none
  expiration := none
  pwExpiration := none
  lastPwdChange := none
  modTime := none
  policy := none
  securityEpoch := 0
  lastAdminUnlock := none
  delegateTo := []
  delegateFrom := []
  tlData := none

def deleteRow (r : Replica) (key : NameKey) (name : PrincipalName) (version : ReplicationTs) : Replica × Applied :=
  match h : r.principals.find key with
  | some row =>
    if version ≤ row.cols.version then (r, .stale)
    else ((r.deleteKeys row.id).updatePrincipal row.id { row.cols with version, deleted := true }, .yes)
  | none => (r.insertPrincipal key ⟨noPrincipal name, version, true⟩ h, .yes)

def deletePrincipal (r : Replica) (realm : Str) (name : PrincipalName) (version : ReplicationTs) :
    Except StoreError (Replica × Applied) := do
  let key ← encodePrincipalKey name
  .ok (r.deleteRow (realm, key) name version)

end

def writeRow {κ ρ : Type} [DecidableEq κ] (t : Table κ (Versioned ρ)) (key : κ) (version : ReplicationTs)
    (updated : Versioned ρ → Versioned ρ) (inserted : Versioned ρ) : Table κ (Versioned ρ) × Applied :=
  match h : t.find key with
  | some row => if version ≤ row.cols.version then (t, .stale) else (t.set row.id (updated row.cols), .yes)
  | none => (t.insert key inserted h, .yes)

def upsertPolicy (r : Replica) (p : StoredPolicy) (version : ReplicationTs) : Except StoreError (Replica × Applied) := do
  let fields ← policyFields p
  let written := writeRow r.policies p.name version (fun _ => ⟨fields, version, false⟩) ⟨fields, version, false⟩
  .ok ({ r with policies := written.1 }, written.2)

def noPolicy : PolicyCols := ⟨0, 0, 0, 0, 0, 0, 0, 0, 0, 0, 0, none, 0, none⟩

def deletePolicy (r : Replica) (name : Str) (version : ReplicationTs) : Except StoreError (Replica × Applied) :=
  let written := writeRow r.policies name version (fun row => { row with version, deleted := true })
    ⟨noPolicy, version, true⟩
  .ok ({ r with policies := written.1 }, written.2)

section
variable [Alphabet]

def upsertLockout (r : Replica) (l : LockoutRecord) (version : ReplicationTs) :
    Except StoreError (Replica × Applied) := do
  let key ← encodePrincipalKey l.name
  let written := writeRow r.lockouts (l.realm, key) version (fun _ => ⟨lockoutFields l, version, false⟩)
    ⟨lockoutFields l, version, false⟩
  .ok ({ r with lockouts := written.1 }, written.2)

def noLockout (name : PrincipalName) : LockoutCols := ⟨name.nameType.toInt64, 0, none, []⟩

def deleteLockout (r : Replica) (realm : Str) (name : PrincipalName) (version : ReplicationTs) :
    Except StoreError (Replica × Applied) := do
  let key ← encodePrincipalKey name
  let written := writeRow r.lockouts (realm, key) version (fun row => { row with version, deleted := true })
    ⟨noLockout name, version, true⟩
  .ok ({ r with lockouts := written.1 }, written.2)

def applyChange (r : Replica) : Change → Except StoreError (Replica × Applied)
  | .upsertPrincipal principal version => r.upsertPrincipal principal version
  | .deletePrincipal realm name version => r.deletePrincipal realm name version
  | .upsertPolicy policy version => r.upsertPolicy policy version
  | .deletePolicy name version => r.deletePolicy name version
  | .upsertLockout record version => r.upsertLockout record version
  | .deleteLockout realm name version => r.deleteLockout realm name version

def applyChanges (r : Replica) : List Change → Except StoreError (Replica × Nat × Nat)
  | [] => .ok (r, 0, 0)
  | change :: changes => do
    let one ← r.applyChange change
    let rest ← applyChanges one.1 changes
    .ok (rest.1, rest.2.1 + (if one.2 = .yes then 1 else 0), rest.2.2 + (if one.2 = .stale then 1 else 0))

def applyBatches (r : Replica) : List (List Change) → Except StoreError Replica
  | [] => .ok r
  | batch :: batches => do
    let one ← r.applyChanges batch
    one.1.applyBatches batches

def commit (r : Replica) (changes : List Change) : Replica :=
  match r.applyChanges changes with
  | .ok (s, _) => s
  | .error _ => r

/-! ## Lookups -/

omit [Alphabet] in
def selectPrincipal (r : Replica) (key : NameKey) : Option (PrincipalCols Bytes × List KeyCols) :=
  (r.principals.find key).bind fun row => row.cols.live.map fun cols => (cols, newestFirst (r.keysOf row.id))

def principalFromRows (key : NameKey) (cols : PrincipalCols Bytes) (rows : List KeyCols) :
    Except StoreError StoredPrincipal := do
  let nameType ← Sql.toI32 "name type out of range" cols.nameType
  let keys ← rows.mapM (keyFromCols "kvno" "mkvno")
  let name ← decodePrincipalKey key.2 nameType
  let attributes ← Sql.toU32 "attributes" cols.attributes
  let maxLife ← Sql.optional (Sql.toU64 "negative value") cols.maxLife
  let maxRenewableLife ← Sql.optional (Sql.toU64 "negative value") cols.maxRenewableLife
  let securityEpoch ← Sql.toU64 "negative value" cols.securityEpoch
  let tlData ← decodeTlData cols.tlData
  .ok
    { name
      realm := key.1
      attributes, maxLife, maxRenewableLife
      expiration := cols.expiration
      pwExpiration := cols.pwExpiration
      lastPwdChange := cols.lastPwdChange
      modTime := cols.modTime
      keys
      allowedToDelegateTo := Sql.splitList cols.delegateTo
      allowedToDelegateFrom := Sql.splitList cols.delegateFrom
      policy := cols.policy
      securityEpoch
      lastAdminUnlock := cols.lastAdminUnlock
      tlData }

def lookupStored (r : Replica) (realm : Str) (name : PrincipalName) : Except StoreError (Option StoredPrincipal) := do
  let key ← encodePrincipalKey name
  Sql.optional (fun found => principalFromRows (realm, key) found.1 found.2) (r.selectPrincipal (realm, key))

omit [Alphabet] in
def policyFromRow (name : Str) (cols : PolicyCols) : Except StoreError StoredPolicy := do
  let n := Sql.toU32 "policy field out of range"
  let pwMinLife ← n cols.pwMinLife
  let pwMaxLife ← n cols.pwMaxLife
  let pwMinLength ← n cols.pwMinLength
  let pwMinClasses ← n cols.pwMinClasses
  let pwHistoryNum ← n cols.pwHistoryNum
  let pwMaxFail ← n cols.pwMaxFail
  let pwFailcntInterval ← n cols.pwFailcntInterval
  let pwLockoutDuration ← n cols.pwLockoutDuration
  let attributes ← n cols.attributes
  let maxLife ← n cols.maxLife
  let maxRenewableLife ← n cols.maxRenewableLife
  let securityEpoch ← Sql.toU64 "negative epoch" cols.securityEpoch
  let tlData ← policyTlDataFrom cols.tlData
  .ok
    { name, pwMinLife, pwMaxLife, pwMinLength, pwMinClasses, pwHistoryNum, pwMaxFail, pwFailcntInterval
      pwLockoutDuration, attributes, maxLife, maxRenewableLife
      allowedKeysalts := cols.allowedKeysalts
      tlData, securityEpoch }

omit [Alphabet] in
def lookupPolicy (r : Replica) (name : Str) : Except StoreError (Option StoredPolicy) :=
  Sql.optional (policyFromRow name) ((r.policies.find name).bind (·.cols.live))

def lookupLockout (r : Replica) (realm : Str) (name : PrincipalName) :
    Except StoreError (Option (Int64 × Option Int64)) := do
  let key ← encodePrincipalKey name
  .ok (((r.lockouts.find (realm, key)).bind (·.cols.live)).map fun cols => (cols.lockedAt, cols.unlockAt))

end

end Replica

end Krb5Rs
