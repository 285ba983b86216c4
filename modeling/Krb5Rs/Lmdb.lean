import Krb5Rs.Rotate
import Krb5Rs.MitCodec
import Krb5Rs.Ulog
import Krb5Rs.Stateful

/-!
# The klmdb store

`kdb-lmdb/store.rs`: the principal database with its cached master keys and,
when iprop is on, its update log. Each write reads and changes the database in
one transaction, commits it, and then appends to the log. File operations and
commits succeed; lockout records are not modelled.
-/

namespace Krb5Rs

open Wire (Bytes)
open Utf8 (Str)
open Stateful (lift)

/-- What a write reads besides the database: the clock, the confounders and the log's times. -/
structure Readings where
  modTime : KerberosTime
  clock : Clock
  draw : Nat → Bytes
  logged : Nat → Time

structure LmdbStore where
  realm : Str
  suppliedMaster : EncryptionKey
  principals : Bytes → Option Bytes
  master : MasterKeys
  ulog : Option (Ulog × Bytes)

def Iprop.Update.deletion (name : Bytes) : Iprop.Update :=
  { princName := name, sno := 0, time := ⟨0, 0⟩, values := [], deleted := true, commit := false, kdcsSeenBy := [],
    futures := [] }

def updateTlData [Alphabet] (entry : MitEntry) (tl : List TlData) : MitEntry :=
  { entry with tlData := Tagged.updateAll tl entry.tlData }

abbrev Txn (α : Type) := EStateM Ulog.Fault LmdbStore α

section
variable [Alphabet]

def PrincipalName.display (name : PrincipalName) : String :=
  "/".intercalate (name.components.map fun c => Utf8.text (Utf8.lossy c))

def displayed (name : PrincipalName) (realm : Str) : String := name.display ++ "@" ++ Utf8.text realm.bytes

namespace LmdbStore

def fails {α : Type} (e : StoreError) : Txn α := throw (.error e)

def checked {α : Type} (x : Except StoreError α) : Txn α := lift (Ulog.lift x)

def kmName : Except StoreError PrincipalName :=
  match GeneralString.fromBytes [75], GeneralString.fromBytes [77] with
  | some k, some m => .ok ⟨1, [k, m]⟩
  | _, _ => .error (.backend "invalid principal component")

def getRaw (s : LmdbStore) (name : PrincipalName) (realm : Str) : Except StoreError (Option MitEntry) :=
  match s.principals (unparseName name realm) with
  | none => .ok none
  | some value => (MitEntry.decode (unparseName name realm) value).map some

def kmEntry (s : LmdbStore) : Except StoreError MitEntry := do
  let name ← kmName
  let raw ← s.getRaw name s.realm
  match raw with
  | some km => .ok km
  | none => .error (.backend "klmdb database has no K/M principal")

def alreadyExists (key : Bytes) : StoreError :=
  .conflict ("Principal or policy already exists: " ++ Utf8.text (Utf8.lossy key))

def doesNotExist (name : PrincipalName) (realm : Str) : StoreError :=
  .notFound ("Principal " ++ displayed name realm ++ " does not exist")

/-! ## Transactions and the log -/

def put (key value : Bytes) : Txn Unit :=
  modify fun s => { s with principals := Function.update s.principals key (some value) }

def delete (key : Bytes) : Txn Unit := modify fun s => { s with principals := Function.update s.principals key none }

def appended (u : Ulog) : Except Ulog.Fault Iprop.Update × Bytes → Txn Unit
  | (.ok _, f) => modify fun s => { s with ulog := some (u, f) }
  | (.error e, f) => do
    modify fun s => { s with ulog := some (u, f) }
    throw e

def logHeld (now : Time) (update : Iprop.Update) : Txn Unit := do
  let s ← get
  match s.ulog with
  | none => pure ()
  | some (u, f) => appended u (u.addUpdate f update now)

def stored (name : PrincipalName) (realm : Str) : Txn MitEntry := do
  let s ← get
  match s.principals (unparseName name realm) with
  | none => fails (doesNotExist name realm)
  | some value => checked (MitEntry.decode (unparseName name realm) value)

def vacant (key : Bytes) : Txn Unit := do
  let s ← get
  if (s.principals key).isSome then fails (alreadyExists key) else pure ()

section
variable [Crypto]

def refreshMaster : Txn Unit := do
  let s ← get
  let km ← checked s.kmEntry
  let keys ← checked (Krb5Rs.refreshMaster km s.suppliedMaster s.master)
  set { s with master := keys }

/-! ## Reads -/

def refreshFor (kvno : UInt16) : Txn Unit := do
  let s ← get
  if (s.master.get kvno).isNone then refreshMaster else pure ()

def decode (entry : MitEntry) : Txn PrincipalRecord := do
  let kvno ← checked (entryMkvno entry)
  refreshFor kvno
  let s ← get
  checked (recordFromEntry entry s.master)

def decodeSome : Option MitEntry → Txn (Option PrincipalRecord)
  | none => pure none
  | some entry => do
    let record ← decode entry
    pure (some record)

def getRecord (name : PrincipalName) (realm : Str) : Txn (Option PrincipalRecord) := do
  let s ← get
  let raw ← checked (s.getRaw name realm)
  decodeSome raw

/-! ## Writes -/

def createPrincipalAs (r : Readings) (entry : PrincipalEntry) (lastPwdChange : Option KerberosTime) (modifier : Bytes)
    (tl : List TlData) : Txn Unit := do
  refreshMaster
  let s ← get
  let record : PrincipalRecord :=
    { entry, lastPwdChange, modTime := some r.modTime, modBy := some modifier, passwordHistory := none
      unlock := false }
  let raw ← checked (newEntry r.clock r.draw record s.master modifier)
  let raw := updateTlData raw tl
  let (_, value) ← checked raw.encode
  let key := unparseName entry.name entry.realm
  vacant key
  put key value
  logHeld (r.logged 0) (Iprop.updateFromEntry none raw)

def createRaw (r : Readings) (raw : MitEntry) : Txn Unit := do
  let (key, value) ← checked raw.encode
  vacant key
  put key value
  logHeld (r.logged 0) (Iprop.updateFromEntry none raw)

def renameRaw (r : Readings) (name : PrincipalName) (realm : Str)
    (f : MitEntry → MasterKeys → Except StoreError MitEntry) : Txn Unit := do
  refreshMaster
  let s ← get
  let raw ← stored name realm
  let renamed ← checked (f raw s.master)
  let (dest, value) ← checked renamed.encode
  vacant dest
  put dest value
  delete (unparseName name realm)
  logHeld (r.logged 0) (Iprop.updateFromEntry none renamed)
  logHeld (r.logged 1) (.deletion (unparseName name realm))

def merged (r : Readings) (raw : MitEntry) (keys : MasterKeys) (record : PrincipalRecord) (modifier : Bytes)
    (tl : List TlData) : Except StoreError MitEntry := do
  let raw ← mergeRecord r.clock r.draw raw record keys (some modifier)
  .ok (updateTlData raw tl)

def updatePrincipalAs (r : Readings) (name : PrincipalName) (realm : Str) (modifier : Bytes) (tl : List TlData)
    (f : PrincipalRecord → Except StoreError PrincipalRecord) : Txn PrincipalRecord := do
  refreshMaster
  let s ← get
  let raw ← stored name realm
  let record ← checked (recordFromEntry raw s.master)
  let record ← checked (f record)
  let record := { record with modTime := some r.modTime, modBy := some modifier }
  let new ← checked (merged r raw s.master record modifier tl)
  let (_, value) ← checked new.encode
  put (unparseName name realm) value
  logHeld (r.logged 0) (Iprop.updateFromEntry (some raw) new)
  pure record

def writeRaw (r : Readings) (key : Bytes) (raw : MitEntry) : Option MitEntry → Txn Bool
  | none => pure false
  | some new => do
    let (_, value) ← checked new.encode
    put key value
    logHeld (r.logged 0) (Iprop.updateFromEntry (some raw) new)
    refreshMaster
    pure true

def updateRaw (r : Readings) (name : PrincipalName) (realm : Str)
    (f : MitEntry → MasterKeys → Except StoreError (Option MitEntry)) : Txn Bool := do
  refreshMaster
  let s ← get
  let raw ← stored name realm
  let new ← checked (f raw s.master)
  writeRaw r (unparseName name realm) raw new

end

def deletePrincipal (r : Readings) (name : PrincipalName) (realm : Str) : Txn Bool := do
  let s ← get
  if (s.principals (unparseName name realm)).isSome then do
    delete (unparseName name realm)
    logHeld (r.logged 0) (.deletion (unparseName name realm))
    pure true
  else pure false

end LmdbStore

end

end Krb5Rs
