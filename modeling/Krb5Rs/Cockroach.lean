import Krb5Rs.Columns
import Krb5Rs.Lmdb
import Krb5Rs.Lockout

/-!
# The CockroachDB store

`store.rs` of the Cockroach backend: the tables of the authoritative database
and the transactions that write them. Transactions are serializable, so each
one is a function of the database it starts from, and one that fails leaves the
database as it was.
-/

namespace Krb5Rs

open Wire (Bytes)
open Utf8 (Str)

/-! ## Stored principals made from entries -/

section
variable [Alphabet]

namespace StoredPrincipal

def withKeys (entry : PrincipalEntry) (lastPwdChange modTime : Option Int64) (keys : List StoredKey) :
    StoredPrincipal where
  name := entry.name
  realm := entry.realm
  attributes := entry.attributes
  maxLife := entry.maxLife.map fun d => UInt64.ofNat d.secs
  maxRenewableLife := entry.maxRenewableLife.map fun d => UInt64.ofNat d.secs
  expiration := entry.expiration.map secondsOf
  pwExpiration := entry.pwExpiration.map secondsOf
  lastPwdChange
  modTime
  keys
  allowedToDelegateTo := entry.allowedToDelegateTo
  allowedToDelegateFrom := entry.allowedToDelegateFrom
  policy := entry.policy
  securityEpoch := entry.securityEpoch
  lastAdminUnlock := entry.lastAdminUnlock.map secondsOf
  tlData := []

def passwordHistory (sp : StoredPrincipal) : Except StoreError PasswordHistory :=
  match sp.tlData.find? (·.kind = kadmData) with
  | none => .ok {}
  | some t => do
    let osa ← Osa.decode t.data
    .ok { adminHistoryKvno := osa.adminHistoryKvno, oldKeyNext := osa.oldKeyNext, oldKeys := osa.oldKeys }

def setPasswordHistory (sp : StoredPrincipal) (history : PasswordHistory) : Except StoreError StoredPrincipal :=
  match sp.tlData.find? (·.kind = kadmData) with
  | none =>
    if history = {} then .ok sp
    else do
      let data ← Osa.encode (withHistory {} (some history))
      .ok { sp with tlData := sp.tlData ++ [⟨kadmData, data⟩] }
  | some t => do
    let osa ← Osa.decode t.data
    let data ← Osa.encode (withHistory osa (some history))
    .ok { sp with tlData := Tagged.update kadmData data sp.tlData }

section
variable [Crypto]

def wrapped (mkvno : UInt16) (master : EncryptionKey) (confounder : Bytes) (k : KeyEntry) :
    Except StoreError StoredKey := do
  let encKey ← encryptKey confounder master k.key
  .ok { kvno := k.kvno, enctype := k.key.keytype, mkvno := mkvno.toUInt32, encKey, salt := k.salt, s2kparams := k.s2kparams }

def fromEntry (now : UInt32) (draw : Nat → Bytes) (entry : PrincipalEntry) (lastPwdChange modTime : Option Int64)
    (keys : MasterKeys) : Except StoreError StoredPrincipal := do
  let active ← keys.activeAt now
  let stored ← entry.keys.zipIdx.mapM fun k => wrapped active.1 active.2 (draw k.2) k.1
  .ok (withKeys entry lastPwdChange modTime stored)

def masterOf (masters : MasterKeys) (mkvno : UInt32) : Except StoreError EncryptionKey :=
  let noMatch := StoreError.backend ("No matching key in entry (master key version " ++ toString mkvno.toNat ++ ")")
  if mkvno.toNat < 2 ^ 16 then
    match masters.get mkvno.toUInt16 with
    | some key => .ok key
    | none => .error noMatch
  else .error noMatch

def unwrapped (masters : MasterKeys) (k : StoredKey) : Except StoreError KeyEntry := do
  let master ← masterOf masters k.mkvno
  let key ← decryptKey master k.enctype k.encKey
  .ok { kvno := k.kvno, key, salt := k.salt, s2kparams := k.s2kparams }

def intoEntry [Calendar] (sp : StoredPrincipal) (masters : MasterKeys) : Except StoreError PrincipalEntry := do
  let keys ← sp.keys.mapM (unwrapped masters)
  let entry ← sp.keylessEntry
  .ok { entry with keys }

def sameKeys (a b : List KeyEntry) : Bool := a = b

def keepsKeys [Calendar] (previous : StoredPrincipal) (keys : MasterKeys) (entry : PrincipalEntry) : Bool :=
  match previous.intoEntry keys with
  | .ok old => sameKeys old.keys entry.keys
  | .error _ => false

def fromUpdate [Calendar] (now : UInt32) (draw : Nat → Bytes) (entry : PrincipalEntry)
    (lastPwdChange modTime : Option Int64) (keys : MasterKeys) (previous : StoredPrincipal) :
    Except StoreError StoredPrincipal :=
  if previous.keepsKeys keys entry then
    .ok { withKeys entry lastPwdChange modTime previous.keys with tlData := previous.tlData }
  else do
    let sp ← fromEntry now draw entry lastPwdChange modTime keys
    .ok { sp with tlData := previous.tlData }

end

end StoredPrincipal

def MitEntry.authState (e : MitEntry) : AuthState := ⟨e.failAuthCount, e.lastFailed.toNat, e.lastSuccess.toNat⟩

def authTime (message : String) (t : Int) : Except StoreError UInt32 :=
  if 0 ≤ t ∧ t < 2 ^ 32 then .ok (UInt32.ofNat t.toNat) else .error (.backend message)

def MitEntry.setAuthState (e : MitEntry) (state : AuthState) : Except StoreError MitEntry := do
  let lastFailed ← authTime "last_failed is outside MIT's u32 range" state.lastFailed
  let lastSuccess ← authTime "last_success is outside MIT's u32 range" state.lastSuccess
  .ok { e with failAuthCount := state.failCount, lastFailed, lastSuccess }

end

/-! ## The tables -/

structure Flagged (ρ : Type) where
  cols : ρ
  deleted : Bool

inductive LogEntity
  | principal
  | policy
  | lockout
deriving Repr, DecidableEq

inductive LogOp
  | upsert
  | delete
deriving Repr, DecidableEq

structure LogRow where
  entity : LogEntity
  key : NameKey
  op : LogOp

structure Cockroach where
  principals : NameKey → Option (Flagged (PrincipalCols (List Str)))
  principalKeys : NameKey → List KeyCols
  authState : NameKey → Option AuthState
  lockouts : NameKey → Option (Flagged LockoutCols)
  log : List LogRow

/-- The store's realm and master key, and the kadmin client it writes for with its TL data. -/
structure CockroachStore where
  realm : Str
  suppliedMaster : EncryptionKey
  caller : Option (Bytes × List TlData)

structure TxReadings where
  now : Int64
  clock : Clock
  draw : Nat → Bytes

namespace Cockroach

def empty : Cockroach := ⟨fun _ => none, fun _ => [], fun _ => none, fun _ => none, []⟩

def live {ρ : Type} : Option (Flagged ρ) → Option ρ
  | some row => if row.deleted then none else some row.cols
  | none => none

def bury {ρ : Type} (change : ρ → ρ) : Option (Flagged ρ) → Option (Flagged ρ)
  | some row => if row.deleted then some row else some ⟨change row.cols, true⟩
  | none => none

def logged (s : Cockroach) (entity : LogEntity) (key : NameKey) (op : LogOp) : Cockroach :=
  { s with log := s.log ++ [⟨entity, key, op⟩] }

def authStateIn (s : Cockroach) (key : NameKey) : AuthState := (s.authState key).getD ⟨0, 0, 0⟩

def putAuthState (s : Cockroach) (key : NameKey) (state : AuthState) : Cockroach :=
  { s with authState := Function.update s.authState key (some state) }

def deleteAuthState (s : Cockroach) (key : NameKey) : Cockroach :=
  { s with authState := Function.update s.authState key none }

def duplicateKey : StoreError := .conflict "duplicate key value violates unique constraint (SQLSTATE 23505)"

def insertKeys (s : Cockroach) (key : NameKey) (keys : List KeyCols) : Except StoreError Cockroach :=
  if ((s.principalKeys key ++ keys).map (·.index)).Nodup then
    .ok { s with principalKeys := Function.update s.principalKeys key (s.principalKeys key ++ keys) }
  else .error duplicateKey

def putRow (s : Cockroach) (key : NameKey) (row : Flagged (PrincipalCols (List Str))) (create : Bool) : Cockroach :=
  if create then { s with principals := Function.update s.principals key (some row) }
  else
    { s with
      principals := Function.update s.principals key ((s.principals key).map fun _ => row)
      principalKeys := Function.update s.principalKeys key [] }

section
variable [Alphabet]

/-- `stored_principals` for the rows of one principal. -/
def fromRows (key : NameKey) (cols : PrincipalCols (List Str)) (rows : List KeyCols) :
    Except StoreError StoredPrincipal := do
  let nameType ← Sql.toI32 "name type out of range" cols.nameType
  let name ← decodePrincipalKey key.2 nameType
  let attributes ← Sql.toU32 "attributes" cols.attributes
  let maxLife ← Sql.optional (Sql.toU64 "negative value") cols.maxLife
  let maxRenewableLife ← Sql.optional (Sql.toU64 "negative value") cols.maxRenewableLife
  let securityEpoch ← Sql.toU64 "negative epoch" cols.securityEpoch
  let tlData ← decodeTlData cols.tlData
  let keys ← rows.mapM (keyFromCols "kvno out of range" "mkvno out of range")
  .ok
    { name
      realm := key.1
      attributes, maxLife, maxRenewableLife
      expiration := cols.expiration
      pwExpiration := cols.pwExpiration
      lastPwdChange := cols.lastPwdChange
      modTime := cols.modTime
      keys
      allowedToDelegateTo := cols.delegateTo
      allowedToDelegateFrom := cols.delegateFrom
      policy := cols.policy
      securityEpoch
      lastAdminUnlock := cols.lastAdminUnlock
      tlData }

def stored (s : Cockroach) (key : NameKey) : Except StoreError (Option StoredPrincipal) :=
  Sql.optional (fun cols => fromRows key cols (newestFirst (s.principalKeys key))) (live (s.principals key))

def writePrincipal (s : Cockroach) (sp : StoredPrincipal) (create : Bool) : Except StoreError Cockroach := do
  let name ← encodePrincipalKey sp.name
  let cols ← principalFields id sp
  let s ← (s.putRow (sp.realm, name) ⟨cols, false⟩ create).insertKeys (sp.realm, name) (sp.keys.map (·.cols))
  .ok (s.logged .principal (sp.realm, name) .upsert)

def conflictExists (key : NameKey) : StoreError :=
  .conflict ("Principal or policy already exists: " ++ Utf8.text key.2 ++ "@" ++ Utf8.text key.1.bytes)

/-- `write_principal` where no live row has the name. -/
def writeNew (s : Cockroach) (key : NameKey) (sp : StoredPrincipal) : Except StoreError Cockroach :=
  match s.principals key with
  | some row => if row.deleted then s.writePrincipal sp false else .error (conflictExists key)
  | none => s.writePrincipal sp true

def insertPrincipal (s : Cockroach) (sp : StoredPrincipal) : Except StoreError Cockroach := do
  let name ← encodePrincipalKey sp.name
  s.writeNew (sp.realm, name) sp

def require (s : Cockroach) (name : PrincipalName) (key : NameKey) : Except StoreError StoredPrincipal := do
  let found ← s.stored key
  match found with
  | some sp => .ok sp
  | none => .error (LmdbStore.doesNotExist name key.1)

/-! ## Transactions -/

def buryPrincipal (s : Cockroach) (now : Int64) (key : NameKey) : Cockroach :=
  { s with
    principals := Function.update s.principals key
      (bury (fun cols => { cols with modTime := some now }) (s.principals key))
    principalKeys := Function.update s.principalKeys key []
    authState := Function.update s.authState key none }.logged .principal key .delete

def liftLockout (s : Cockroach) (key : NameKey) : Cockroach :=
  if (live (s.lockouts key)).isSome then
    { s with lockouts := Function.update s.lockouts key (bury id (s.lockouts key)) }.logged .lockout key .delete
  else s

def deletePrincipal (s : Cockroach) (r : TxReadings) (name : PrincipalName) (realm : Str) :
    Except StoreError (Cockroach × Bool) := do
  let key ← encodePrincipalKey name
  if (live (s.principals (realm, key))).isSome then
    .ok ((s.buryPrincipal r.now (realm, key)).liftLockout (realm, key), true)
  else .ok (s, false)

def reportLockout (s : Cockroach) (l : LockoutRecord) : Except StoreError Cockroach := do
  let key ← encodePrincipalKey l.name
  let nameType := ((s.lockouts (l.realm, key)).map (·.cols.nameType)).getD l.name.nameType.toInt64
  .ok
    ({ s with
      lockouts := Function.update s.lockouts (l.realm, key) (some ⟨{ lockoutFields l with nameType }, false⟩) }.logged
        .lockout (l.realm, key) .upsert)

section
variable [Crypto]

def mastersInTx (s : Cockroach) (st : CockroachStore) : Except StoreError MasterKeys := do
  let found ← s.stored (st.realm, ascii "K/M")
  match found with
  | none => .error (.notFound ("realm " ++ Utf8.text st.realm.bytes ++ " has no K/M entry"))
  | some km =>
    match km.toRaw >>= fun raw => MasterKeys.fetch raw st.suppliedMaster with
    | .ok keys => .ok keys
    | .error _ => .error (.backend "the master key does not match the database (cannot decrypt K/M)")

def createRaw (s : Cockroach) (st : CockroachStore) (raw : MitEntry) : Except StoreError Cockroach := do
  let _ ← s.mastersInTx st
  let sp ← StoredPrincipal.fromMit raw none
  let s ← s.insertPrincipal sp
  if raw.authState = ⟨0, 0, 0⟩ then .ok s
  else do
    let key ← encodePrincipalKey sp.name
    .ok (s.putAuthState (sp.realm, key) raw.authState)

variable [Calendar]

def rawOf (s : Cockroach) (r : TxReadings) (key : NameKey) (sp : StoredPrincipal) (keys : MasterKeys) :
    Except StoreError MitEntry := do
  let raw ← sp.toMit r.clock keys
  raw.setAuthState (s.authStateIn key)

def writeRaw (s : Cockroach) (key : NameKey) (sp : StoredPrincipal) : Option MitEntry → Except StoreError (Cockroach × Bool)
  | none => .ok (s, false)
  | some raw => do
    let new ← StoredPrincipal.fromMit raw (some sp)
    let t ← s.writePrincipal new false
    .ok (if raw.authState = s.authStateIn key then t else t.putAuthState key raw.authState, true)

def updateRaw (s : Cockroach) (st : CockroachStore) (r : TxReadings) (name : PrincipalName) (realm : Str)
    (f : MitEntry → MasterKeys → Except StoreError (Option MitEntry)) : Except StoreError (Cockroach × Bool) := do
  let key ← encodePrincipalKey name
  let keys ← s.mastersInTx st
  let sp ← s.require name (realm, key)
  let raw ← s.rawOf r (realm, key) sp keys
  let new ← f raw keys
  s.writeRaw (realm, key) sp new

def moved (s : Cockroach) (r : TxReadings) (source dest : NameKey) (state : AuthState) : Cockroach :=
  let s := s.deleteAuthState source
  let s := if state = ⟨0, 0, 0⟩ then s else s.putAuthState dest state
  { s with
    principals := Function.update s.principals source
      (bury (fun cols => { cols with modTime := some r.now }) (s.principals source))
    principalKeys := Function.update s.principalKeys source [] }.logged .principal source .delete

def renameRaw (s : Cockroach) (st : CockroachStore) (r : TxReadings) (name : PrincipalName) (realm : Str)
    (f : MitEntry → MasterKeys → Except StoreError MitEntry) : Except StoreError Cockroach := do
  let key ← encodePrincipalKey name
  let keys ← s.mastersInTx st
  let sp ← s.require name (realm, key)
  let source ← s.rawOf r (realm, key) sp keys
  let renamed ← f source keys
  let dest ← StoredPrincipal.fromMit renamed (some sp)
  let s ← s.insertPrincipal dest
  let destKey ← encodePrincipalKey dest.name
  .ok (s.moved r (realm, key) (dest.realm, destKey) renamed.authState)

/-- `sp` with the caller's `MOD_PRINC` and TL data; without a kadmin client the writer is krb5-rs-kdb. -/
def stamp (st : CockroachStore) (r : TxReadings) (keys : MasterKeys) (sp : StoredPrincipal) :
    Except StoreError StoredPrincipal := do
  let caller := st.caller.getD (appendComponent (ascii "krb5-rs-kdb") ++ 64 :: appendComponent sp.realm.bytes, [])
  let raw ← sp.toMit r.clock keys
  if 0 ≤ r.now.toInt ∧ r.now.toInt < 2 ^ 32 then do
    let raw ← setModPrinc raw (UInt32.ofNat r.now.toInt.toNat) caller.1
    StoredPrincipal.fromMit (updateTlData raw caller.2) (some sp)
  else .error (.backend "time outside u32 range")

def createPrincipal (s : Cockroach) (st : CockroachStore) (r : TxReadings) (entry : PrincipalEntry)
    (lastPwdChange : Option KerberosTime) : Except StoreError Cockroach := do
  let keys ← s.mastersInTx st
  let sp ← StoredPrincipal.fromEntry r.clock.wrapped r.draw entry (lastPwdChange.map StoredPrincipal.secondsOf)
    (some r.now) keys
  let sp ← stamp st r keys sp
  s.insertPrincipal sp

def recordOf (sp : StoredPrincipal) (keys : MasterKeys) : Except StoreError PrincipalRecord := do
  let history ← sp.passwordHistory
  let entry ← sp.intoEntry keys
  .ok
    { entry
      lastPwdChange := sp.lastPwdChange.map fun v => dateOf v.toInt
      modTime := sp.modTime.map fun v => dateOf v.toInt
      modBy := none
      passwordHistory := some history
      unlock := false }

def withRecordHistory (sp : StoredPrincipal) : Option PasswordHistory → Except StoreError StoredPrincipal
  | some history => sp.setPasswordHistory history
  | none => .ok sp

def updated (st : CockroachStore) (r : TxReadings) (keys : MasterKeys) (previous : StoredPrincipal)
    (rec : PrincipalRecord) : Except StoreError StoredPrincipal := do
  let sp ← StoredPrincipal.fromUpdate r.clock.wrapped r.draw rec.entry (rec.lastPwdChange.map StoredPrincipal.secondsOf)
    (some r.now) keys previous
  let sp ← withRecordHistory sp rec.passwordHistory
  stamp st r keys sp

def zeroFailures (s : Cockroach) (key : NameKey) : Cockroach :=
  { s with
    authState := Function.update s.authState key ((s.authState key).map fun state => { state with failCount := 0 }) }

def updatePrincipal (s : Cockroach) (st : CockroachStore) (r : TxReadings) (name : PrincipalName) (realm : Str)
    (f : PrincipalRecord → Except StoreError PrincipalRecord) : Except StoreError (Cockroach × StoredPrincipal) := do
  let key ← encodePrincipalKey name
  let keys ← s.mastersInTx st
  let previous ← s.require name (realm, key)
  let rec ← recordOf previous keys
  let changed ← f rec
  let sp ← updated st r keys previous changed
  let t ← s.writePrincipal sp false
  let unlocked :=
    changed.entry.lastAdminUnlock.map (·.seconds) ≠ rec.entry.lastAdminUnlock.map (·.seconds)
  .ok (if unlocked then (t.liftLockout (realm, key)).zeroFailures (realm, key) else t, sp)

end

/-! ## What the gate asks -/

structure SecurityState where
  epoch : UInt64
  disabled : Bool
  locked : Bool
deriving Repr, DecidableEq

def lockedNow (now : Int64) : Option LockoutCols → Bool
  | none => false
  | some cols => cols.unlockAt.all (now < ·)

def securityState (s : Cockroach) (now : Int64) (name : PrincipalName) (realm : Str) :
    Except StoreError SecurityState := do
  let key ← encodePrincipalKey name
  match live (s.principals (realm, key)) with
  | none => .error (LmdbStore.doesNotExist name realm)
  | some cols =>
    .ok
      { epoch := if 0 ≤ cols.securityEpoch.toInt then UInt64.ofNat cols.securityEpoch.toInt.toNat else 0
        disabled := cols.attributes &&& Sql.ofU32 PrincipalAttributes.disallowAllTix ≠ 0
        locked := lockedNow now (live (s.lockouts (realm, key))) }

end

end Cockroach

end Krb5Rs
