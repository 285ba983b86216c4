import Krb5Rs.Tl

/-!
# Master-key rotation

The master-key commands of `krb5-rs-kdb` over a database of the entry `K/M` and
the other principals, and how `kdb-lmdb/store.rs` creates `K/M`, rereads the
master keys and updates an entry. Stored entries are kept decoded.
-/

namespace Krb5Rs

open Wire (Bytes)
open Utf8 (Str)

def lockdownKeys : UInt32 := 0x00800000

def MasterKeys.single (key : EncryptionKey) : MasterKeys := ⟨[(1, key)], [⟨1, 0⟩]⟩

section
variable [Alphabet]

structure Database where
  km : MitEntry
  principals : List MitEntry

def Database.entries (db : Database) : List MitEntry := db.km :: db.principals

def stampActkvno (km : MitEntry) : MitEntry :=
  let data := Codec.u16 1 ++ (Codec.u16 1 ++ Codec.u32 0)
  let mkvnoTl := km.tlData.find? fun tl => tl.kind = mkvno
  { km with tlData := (km.tlData.eraseP fun tl => tl.kind = mkvno) ++ ⟨actkvno, data⟩ :: mkvnoTl.toList }

def kmRecord (km : PrincipalName) (realm : Str) (master : EncryptionKey) (life renewable : Option Duration)
    (expiration : Option KerberosTime) (now : KerberosTime) (creator : Bytes) : PrincipalRecord where
  entry :=
    { name := km
      realm
      attributes := PrincipalAttributes.disallowAllTix ||| lockdownKeys
      maxLife := life
      maxRenewableLife := renewable
      expiration
      pwExpiration := none
      keys := [⟨1, master, none, none⟩]
      allowedToDelegateTo := []
      allowedToDelegateFrom := []
      requireAuth := none
      policy := none
      securityEpoch := 0
      lastAdminUnlock := none }
  lastPwdChange := none
  modTime := some now
  modBy := some creator
  passwordHistory := none
  unlock := false

variable [Crypto]

def newEntry (clock : Clock) (draw : Nat → Bytes) (record : PrincipalRecord) (keys : MasterKeys) (creator : Bytes) :
    Except StoreError MitEntry :=
  let entry : MitEntry :=
    { principal := record.entry.name
      realm := record.entry.realm
      attributes := 0
      maxLife := 0
      maxRenewableLife := 0
      expiration := 0
      pwExpiration := 0
      lastSuccess := 0
      lastFailed := 0
      failAuthCount := 0
      tlData := []
      keyData := [] }
  mergeRecord clock draw entry record keys (some creator)

def createKm (clock : Clock) (draw : Nat → Bytes) (record : PrincipalRecord) (master : EncryptionKey)
    (creator : Bytes) : Except StoreError MitEntry := do
  let km ← newEntry clock draw record (.single master) creator
  .ok (stampActkvno km)

/-! ## Updating an entry -/

def refreshMaster (km : MitEntry) (supplied : EncryptionKey) (loaded : MasterKeys) : Except StoreError MasterKeys :=
  match loaded.keys.findSome? fun m => (MasterKeys.fetch km m.2).toOption with
  | some keys => .ok keys
  | none => MasterKeys.fetch km supplied

def updateRaw (km entry : MitEntry) (supplied : EncryptionKey) (loaded : MasterKeys)
    (f : MitEntry → MasterKeys → Except StoreError MitEntry) : Except StoreError MitEntry := do
  let keys ← refreshMaster km supplied loaded
  let entry ← f entry keys
  let _ ← entry.encode
  .ok entry

/-! ## Commands -/

inductive MkeyCommand
  | addMkey (new : EncryptionKey)
  | useMkey (requested : Int) (start : UInt32)
  | updatePrincEncryption (selected : MitEntry → Bool) (dryRun : Bool)
  | purgeMkeys (stashKvno : Option UInt32) (dryRun : Bool)

/-- A command with the master key it is given, its readings of the clock and its randomness. -/
structure Invocation where
  command : MkeyCommand
  supplied : EncryptionKey
  now : UInt32
  later : UInt32
  modifier : Bytes
  draw : Nat → Nat → Bytes

inductive CommandError
  | store (e : StoreError)
  | invalidKvno (requested : Int)
  | determiningMasterKey (entry : MitEntry) (e : StoreError)
  | reencrypting (entry : MitEntry) (e : StoreError)
  | findingKeysInUse (e : StoreError)
  | stashNeedsUpdating

abbrev Outcome := Database × Except CommandError Unit

def withKm (db : Database) : Except StoreError MitEntry → Outcome
  | .ok km => ({ db with km }, .ok ())
  | .error e => (db, .error (.store e))

def addMkeyCommand (i : Invocation) (new : EncryptionKey) (keys : MasterKeys) (db : Database) : Outcome :=
  withKm db <| updateRaw db.km db.km i.supplied keys fun km keys => do
    let km ← addNewMkey (i.draw 0) km keys new
    setModPrinc km i.now i.modifier

/-- The version `use_mkey` is asked for, if there is such a master key. -/
def requestedKvno (keys : MasterKeys) (requested : Int) : Option UInt16 :=
  if 0 < requested ∧ requested < 2 ^ 16 then
    if (keys.get (UInt16.ofInt requested)).isSome then some (UInt16.ofInt requested) else none
  else none

def useMkeyCommand (i : Invocation) (requested : Int) (start : UInt32) (keys : MasterKeys) (db : Database) : Outcome :=
  match requestedKvno keys requested with
  | none => (db, .error (.invalidKvno requested))
  | some kvno =>
    withKm db <| updateRaw db.km db.km i.supplied keys fun km _ => do
      let list ← lookupActkvno km
      let list ← useMkey list kvno start i.now
      setModPrinc (updateActkvno km list) i.now i.modifier

def convertEntries (i : Invocation) (km : MitEntry) (keys : MasterKeys) (newKvno : UInt16) (new : EncryptionKey)
    (selected : MitEntry → Bool) (dryRun : Bool) : List MitEntry → List MitEntry × Except CommandError Unit
  | [] => ([], .ok ())
  | entry :: rest =>
    let continued (entry : MitEntry) :=
      let (rest, r) := convertEntries i km keys newKvno new selected dryRun rest
      (entry :: rest, r)
    if selected entry then
      match entryMkvno entry with
      | .error e => (entry :: rest, .error (.determiningMasterKey entry e))
      | .ok old =>
        if old = newKvno ∨ dryRun then continued entry
        else
          let converted := updateRaw km entry i.supplied keys fun entry keys => do
            let entry ← convertEntry (i.draw rest.length) entry keys newKvno new
            setModPrinc entry i.now i.modifier
          match converted with
          | .error e => (entry :: rest, .error (.reencrypting entry e))
          | .ok entry => continued entry
    else continued entry

def updatePrincEncryptionCommand (i : Invocation) (selected : MitEntry → Bool) (dryRun : Bool) (keys : MasterKeys)
    (db : Database) : Outcome :=
  match keys.activeAt i.later with
  | .error e => (db, .error (.store e))
  | .ok (newKvno, new) =>
    let (principals, r) := convertEntries i db.km keys newKvno new selected dryRun db.principals
    ({ db with principals }, r)

def unusedVersions (km : MitEntry) (inUse : List UInt16) : List UInt16 :=
  (km.keyData.map (·.kvno)).filter fun kvno => kvno ∉ inUse

def purgeMkeysCommand (i : Invocation) (stashKvno : Option UInt32) (dryRun : Bool) (keys : MasterKeys)
    (db : Database) : Outcome :=
  if db.km.keyData.length = 1 then (db, .ok ())
  else
    match db.entries.mapM entryMkvno with
    | .error e => (db, .error (.findingKeysInUse e))
    | .ok inUse =>
      let masterKvno := stashKvno.getD ((db.km.keyData.head?.map KeyData.kvno).getD 0).toUInt32
      let unused := unusedVersions db.km inUse
      if masterKvno ∈ unused.map (·.toUInt32) then (db, .error .stashNeedsUpdating)
      else if unused = [] ∨ dryRun then (db, .ok ())
      else
        withKm db <| updateRaw db.km db.km i.supplied keys fun km _ => do
          let (km, _) ← purgeMkeys km inUse
          setModPrinc km i.now i.modifier

def mkeyCommand (i : Invocation) (db : Database) : Outcome :=
  match refreshMaster db.km i.supplied (.single i.supplied) with
  | .error e => (db, .error (.store e))
  | .ok keys =>
    match i.command with
    | .addMkey new => addMkeyCommand i new keys db
    | .useMkey requested start => useMkeyCommand i requested start keys db
    | .updatePrincEncryption selected dryRun => updatePrincEncryptionCommand i selected dryRun keys db
    | .purgeMkeys stashKvno dryRun => purgeMkeysCommand i stashKvno dryRun keys db

def rotate (db : Database) (is : List Invocation) : Database := is.foldl (fun db i => (mkeyCommand i db).1) db

end

end Krb5Rs
