import Krb5Rs.Acl
import Krb5Rs.KeySelect
import Krb5Rs.TicketPolicy

/-!
# Administration

`AdminOps` of `kdb/admin.rs` over the klmdb store as one caller: adding,
deleting and modifying principals and changing their keys. There are no hook
modules. Deriving keys is a parameter, `KeyGen`; so are the password quality
modules.
-/

namespace Krb5Rs

open Wire (Bytes)
open Utf8 (Str)
open LmdbStore (checked fails getRecord)

class KeyGen where
  stringToKey : Int32 → Bytes → Bytes → Except String Bytes
  randomToKey : Int32 → Bytes → Except String Bytes

def passQTooshort : String := "Password is too short"
def passQClass : String := "Password does not contain enough character classes"
def passReuse : String := "Cannot reuse password"
def protectPrincipal : String := "Cannot change protected principal"

/-! ## Options -/

structure AttrChange where
  set : UInt32 := 0
  clear : UInt32 := 0
deriving Repr, DecidableEq

def AttrChange.apply (c : AttrChange) (attrs : UInt32) : UInt32 := Flags.remove (attrs ||| c.set) c.clear

def AttrChange.exactly (attrs : UInt32) : AttrChange := ⟨attrs, ~~~attrs⟩

structure PrincipalOptions where
  attributes : AttrChange := {}
  maxLife : Option (Option Duration) := none
  maxRenewableLife : Option (Option Duration) := none
  expiration : Option (Option KerberosTime) := none
  pwExpiration : Option (Option KerberosTime) := none
  clearDelegateTo : Bool := false
  delegateTo : List Str := []
  clearDelegateFrom : Bool := false
  delegateFrom : List Str := []
  policy : Option (Option Str) := none
  unlock : Bool := false

def addName (realm : Str) (list : List Str) (name : Str) : List Str :=
  let full := if 64 ∈ name.bytes then name else Utf8.lossyStr (name.bytes ++ 64 :: realm.bytes)
  if full ∈ list then list else list ++ [full]

def updateList (realm : Str) (list : List Str) (clear : Bool) (add : List Str) : List Str :=
  add.foldl (addName realm) (if clear then [] else list)

def plusSeconds (time : Int) (seconds : UInt32) : KerberosTime := kerberosTime (time + seconds.toNat)

section
variable [Alphabet]

def securityFields (e : PrincipalEntry) :
    UInt32 × Option KerberosTime × Option KerberosTime × List Str × List Str × Option Str :=
  (e.attributes, e.expiration, e.pwExpiration, e.allowedToDelegateTo, e.allowedToDelegateFrom, e.policy)

def applyOptions (now : Int) (entry : PrincipalEntry) (opts : PrincipalOptions) : PrincipalEntry × Bool :=
  let new : PrincipalEntry :=
    { entry with
      attributes := opts.attributes.apply entry.attributes
      maxLife := opts.maxLife.getD entry.maxLife
      maxRenewableLife := opts.maxRenewableLife.getD entry.maxRenewableLife
      expiration := opts.expiration.getD entry.expiration
      pwExpiration := opts.pwExpiration.getD entry.pwExpiration
      allowedToDelegateTo := updateList entry.realm entry.allowedToDelegateTo opts.clearDelegateTo opts.delegateTo
      allowedToDelegateFrom :=
        updateList entry.realm entry.allowedToDelegateFrom opts.clearDelegateFrom opts.delegateFrom
      policy := opts.policy.getD entry.policy
      lastAdminUnlock := if opts.unlock then some (kerberosTime now) else entry.lastAdminUnlock }
  let changed : Bool := securityFields entry ≠ securityFields new ∨ opts.unlock
  (if changed then { new with securityEpoch := new.securityEpoch + 1 } else new, changed)

/-! ## Passwords -/

def byteClass (b : UInt8) : Nat :=
  let n := b.toNat
  if 97 ≤ n ∧ n ≤ 122 then 0
  else if 65 ≤ n ∧ n ≤ 90 then 1
  else if 48 ≤ n ∧ n ≤ 57 then 2
  else if (0x21 ≤ n ∧ n ≤ 0x2f) ∨ (0x3a ≤ n ∧ n ≤ 0x40) ∨ (0x5b ≤ n ∧ n ≤ 0x60) ∨ (0x7b ≤ n ∧ n ≤ 0x7e) then 3
  else 4

def checkPassword (password : Str) (policy : MitPolicy) : Except StoreError Unit :=
  if password.bytes.length < policy.pwMinLength.toNat then .error (.rejected passQTooshort)
  else if ((List.range 5).filter fun c => c ∈ password.bytes.map byteClass).length < policy.pwMinClasses.toNat then
    .error (.rejected passQClass)
  else .ok ()

def addToHistory (hist : PasswordHistory) (histKvno pwHistoryNum : UInt32) (entry : List KeyData) : PasswordHistory :=
  if pwHistoryNum.toNat ≤ 1 then hist
  else
    let hist : PasswordHistory := if hist.adminHistoryKvno ≠ histKvno then ⟨histKvno, 0, []⟩ else hist
    let nkeys := hist.oldKeys.length
    let knext := hist.oldKeyNext.toNat
    let keep := pwHistoryNum.toNat - 1
    let (oldKeys, knext) :=
      if nkeys + 1 < pwHistoryNum.toNat then (hist.oldKeys.insertIdx (min knext nkeys) [], knext)
      else if pwHistoryNum.toNat < nkeys + 1 then
        ((List.range keep).map fun i => hist.oldKeys.getD ((i + nkeys + knext - keep) % nkeys) [], 0)
      else (hist.oldKeys, knext)
    let knext := if oldKeys.length < knext + 1 then 0 else knext
    let next := if knext + 1 = keep then 0 else knext + 1
    { hist with oldKeyNext := UInt32.ofNat next, oldKeys := oldKeys.set knext entry }

/-! ## Keys -/

def generated {α : Type} : Except String α → Except StoreError α
  | .ok a => .ok a
  | .error e => .error (.backend e)

section
variable [KeyGen]

def keysFromPassword (name : PrincipalName) (realm : Str) (password : Str) (kvno : UInt32)
    (keysalts : List (Int32 × SaltType)) : Except StoreError (List KeyEntry) :=
  keysalts.mapM fun ks => do
    let salt := saltBytes name realm ks.2
    let key ← generated (KeyGen.stringToKey ks.1 password.bytes salt)
    .ok ⟨kvno, ⟨ks.1, key⟩, if ks.2 = .normal then none else some salt, none⟩

def randomKeys (fresh : Nat → Bytes) (kvno : UInt32) : List Int32 → Except StoreError (List KeyEntry)
  | [] => .ok []
  | etype :: etypes => do
    let key ← generated (KeyGen.randomToKey etype (fresh 0))
    let rest ← randomKeys (fun i => fresh (i + 1)) kvno etypes
    .ok (⟨kvno, ⟨etype, key⟩, none, none⟩ :: rest)

end

/-- The old keys a change keeps, from the newest on: all for 1, otherwise `keepOld - 1` versions. -/
def keepLoop (keepOld : Nat) : Option UInt32 → Nat → List KeyEntry → List KeyEntry
  | _, _, [] => []
  | last, changes, k :: ks =>
    if 1 < keepOld then
      let changes := if last.any (· ≠ k.kvno) then changes + 1 else changes
      if keepOld - 1 ≤ changes then [] else k :: keepLoop keepOld (some k.kvno) changes ks
    else k :: keepLoop keepOld last changes ks

def keptKeys (keepOld : Nat) (old : List KeyEntry) : List KeyEntry :=
  if 0 < keepOld then keepLoop keepOld none 0 (old.mergeSort fun a b => b.kvno ≤ a.kvno) else []

section
variable [Crypto]

def historyEntry (draw : Nat → Bytes) (entry : PrincipalEntry) (histKey : EncryptionKey) :
    Except StoreError (List KeyData) :=
  match entry.currentKvno with
  | none => .ok []
  | some kvno =>
    ((entry.keys.filter fun k => k.kvno = kvno).zipIdx).mapM fun k => do
      let data ← keyDataFromEntry (draw k.2) entry k.1 histKey
      .ok { data with
        ver := 2, fields := if data.fields.length = 1 then data.fields ++ [(0, [])] else data.fields }

def historyKeyMatches (data : KeyData) (histKeys : List EncryptionKey) (key : EncryptionKey) : Bool :=
  match data.fields with
  | [] => false
  | (etype, ciphertext) :: _ =>
    etype.toInt32 = key.keytype ∧ histKeys.any fun histKey =>
      match decryptKey histKey key.keytype ciphertext with
      | .ok old => old.keyBytes = key.keyBytes
      | .error _ => false

def reusesCurrent (entry : PrincipalEntry) (keys : List KeyEntry) : Bool :=
  keys.any fun new => (entry.keys.filter fun k => some k.kvno = entry.currentKvno).any fun old => old.key = new.key

def withHistoryChecked (draw : Nat → Bytes) (rec : PrincipalRecord) (keys : List KeyEntry) (policy : MitPolicy)
    (hist : Option (List EncryptionKey × UInt32)) : Except StoreError PrincipalRecord :=
  match rec.passwordHistory, hist with
  | some history, some (histKey :: histKeys, histKvno) =>
    if policy.pwHistoryNum.toNat ≤ 1 then .ok rec
    else if history.adminHistoryKvno = histKvno ∧ history.oldKeys.flatten.any (fun data =>
        keys.any fun new => historyKeyMatches data (histKey :: histKeys) new.key) then
      .error (.rejected passReuse)
    else do
      let entry ← historyEntry draw rec.entry histKey
      if entry = [] then .ok rec
      else .ok { rec with passwordHistory := some (addToHistory history histKvno policy.pwHistoryNum entry) }
  | _, _ => .ok rec

def checkReuse (draw : Nat → Bytes) (rec : PrincipalRecord) (keys : List KeyEntry) (password : Option Str)
    (policy : Option MitPolicy) (hist : Option (List EncryptionKey × UInt32)) : Except StoreError PrincipalRecord :=
  match password, policy with
  | some _, some policy =>
    if reusesCurrent rec.entry keys then .error (.rejected passReuse)
    else withHistoryChecked draw rec keys policy hist
  | _, _ => .ok rec

end

/-! ## Operations -/

/-- What serving one request reads besides the database; `writes i` is for its `i`-th write. -/
structure Env where
  now : UInt32
  writes : Nat → Readings
  fresh : Nat → Nat → Bytes
  policies : Str → Except StoreError (Option MitPolicy)
  pwqual : Str → Option Str → PrincipalName → Str → Except StoreError Unit
  lockoutRecord : Bytes → Except StoreError Unit

structure AdminOps where
  modifier : Bytes
  tlData : List TlData
  keysalts : List (Int32 × SaltType)
  historyEnctype : Int32

namespace AdminOps

def duplicate (what : String) : StoreError := .conflict ("Principal or policy already exists: " ++ what)

def missing (what : String) : StoreError := .notFound (what ++ " does not exist")

def etypes (a : AdminOps) : List Int32 :=
  a.keysalts.foldl (fun es ks => if ks.1 ∈ es then es else es ++ [ks.1]) []

def spawnWrite {α : Type} (operation : String) (m : Txn α) : Txn α := fun s =>
  match m s with
  | .error .panicked s => .error (.error (.unavailable ("LMDB " ++ operation ++ " worker failed: panicked"))) s
  | r => r

def ignoreConflict (m : Txn Unit) : Txn Unit := fun s =>
  match m s with
  | .error (.error e) s => if e.kind = .conflict then .ok () s else .error (.error e) s
  | r => r

def isHistoryPrincipal (name : PrincipalName) : Bool := name.components = [ascii "kadmin", ascii "history"]

def historyPrincipal : Txn PrincipalName :=
  match GeneralString.fromBytes (ascii "kadmin"), GeneralString.fromBytes (ascii "history") with
  | some k, some h => pure ⟨1, [k, h]⟩
  | _, _ => throw .panicked

def policyNamed (env : Env) : Option Str → Except StoreError (Option MitPolicy)
  | some name => env.policies name
  | none => .ok none

def passwdCheck (env : Env) (password : Str) (policy : Option MitPolicy) (name : PrincipalName) (realm : Str) :
    Except StoreError Unit := do
  match policy with
  | some policy => checkPassword password policy
  | none => .ok ()
  env.pwqual password (policy.map (·.name)) name realm

def newPrincipal (name : PrincipalName) (realm : Str) (keys : List KeyEntry) : PrincipalEntry where
  name
  realm
  attributes := 0
  maxLife := none
  maxRenewableLife := none
  expiration := none
  pwExpiration := none
  keys
  allowedToDelegateTo := []
  allowedToDelegateFrom := []
  requireAuth := none
  policy := none
  securityEpoch := 0
  lastAdminUnlock := none

def pwExpirationFrom (start : Int) : Option MitPolicy → Option KerberosTime
  | some policy => if policy.pwMaxLife ≠ 0 then some (plusSeconds start policy.pwMaxLife) else none
  | none => none

section
variable [Crypto]

def require (name : PrincipalName) (realm : Str) : Txn PrincipalRecord := do
  let record ← getRecord name realm
  match record with
  | some record => pure record
  | none => fails (missing ("Principal " ++ displayed name realm))

def createPrincipal (a : AdminOps) (r : Readings) (entry : PrincipalEntry) (changed : KerberosTime) : Txn Unit :=
  spawnWrite "principal create" (LmdbStore.createPrincipalAs r entry (some changed) a.modifier a.tlData)

def updatePrincipal (a : AdminOps) (r : Readings) (name : PrincipalName) (realm : Str)
    (f : PrincipalRecord → Except StoreError PrincipalRecord) : Txn PrincipalRecord :=
  spawnWrite "principal update" (LmdbStore.updatePrincipalAs r name realm a.modifier a.tlData f)

def deletePrincipal (env : Env) (name : PrincipalName) (realm : Str) : Txn Unit := do
  let _ ← require name realm
  let deleted ← spawnWrite "principal delete" (LmdbStore.deletePrincipal (env.writes 0) name realm)
  if deleted then pure () else fails (missing ("Principal " ++ displayed name realm))

def newPolicy (env : Env) (opts : PrincipalOptions) : Except StoreError (Option MitPolicy) :=
  policyNamed env (opts.policy.getD none)

def modified (env : Env) (opts : PrincipalOptions) (policy : Option MitPolicy) (rec : PrincipalRecord) :
    PrincipalRecord :=
  let (entry, bumped) := applyOptions env.now.toNat rec.entry opts
  let restarted := match opts.pwExpiration, policy with
    | none, some policy => pwExpirationFrom ((rec.lastPwdChange.map (·.seconds)).getD 0) (some policy)
    | _, _ => entry.pwExpiration
  let pwExpiration := if opts.policy = some none ∧ rec.entry.policy.isSome then none else restarted
  let securityEpoch :=
    if bumped = false ∧ pwExpiration ≠ entry.pwExpiration then entry.securityEpoch + 1 else entry.securityEpoch
  { rec with entry := { entry with pwExpiration, securityEpoch }, unlock := opts.unlock }

def modifyPrincipal (a : AdminOps) (env : Env) (name : PrincipalName) (realm : Str) (opts : PrincipalOptions) :
    Txn Unit := do
  let policy ← checked (newPolicy env opts)
  let _ ← require name realm
  let _ ← a.updatePrincipal (env.writes 0) name realm fun rec => .ok (modified env opts policy rec)

section
variable [KeyGen]

def makeKeys (a : AdminOps) (fresh : Nat → Bytes) (name : PrincipalName) (realm : Str) (kvno : UInt32)
    (etypes : List Int32) : Option Str → Except StoreError (List KeyEntry)
  | some pw => keysFromPassword name realm pw kvno a.keysalts
  | none => randomKeys fresh kvno etypes

def checkOptional (env : Env) (password : Option Str) (policy : Option MitPolicy) (name : PrincipalName)
    (realm : Str) : Except StoreError Unit :=
  match password with
  | some pw => passwdCheck env pw policy name realm
  | none => .ok ()

def addedEntry (env : Env) (name : PrincipalName) (realm : Str) (keys : List KeyEntry) (opts : PrincipalOptions)
    (policy : Option MitPolicy) : PrincipalEntry :=
  let entry := (applyOptions env.now.toNat (newPrincipal name realm keys) opts).1
  let expires := pwExpirationFrom env.now.toNat policy
  { entry with
    pwExpiration := if opts.pwExpiration.isNone ∧ expires.isSome then expires else entry.pwExpiration
    securityEpoch := 1 }

def addPrincipal (a : AdminOps) (env : Env) (name : PrincipalName) (realm : Str) (password : Option Str)
    (opts : PrincipalOptions) : Txn Unit := do
  let present ← getRecord name realm
  if present.isSome then fails (duplicate (displayed name realm))
  else do
    let policy ← checked (newPolicy env opts)
    checked (checkOptional env password policy name realm)
    let keys ← checked (a.makeKeys (env.fresh 0) name realm 1 a.etypes password)
    a.createPrincipal (env.writes 0) (addedEntry env name realm keys opts policy) (kerberosTime env.now.toNat)

def historyRecord (a : AdminOps) (env : Env) (name : PrincipalName) (realm : Str) :
    Option PrincipalRecord → Txn PrincipalRecord
  | some record => pure record
  | none => do
    let keys ← checked (randomKeys (env.fresh 1) 2 [a.historyEnctype])
    let entry := { newPrincipal name realm keys with maxLife := some ⟨0x40, 0⟩, securityEpoch := 1 }
    ignoreConflict (a.createPrincipal (env.writes 1) entry (kerberosTime env.now.toNat))
    require name realm

def historyKeys (a : AdminOps) (env : Env) (realm : Str) : Txn (List EncryptionKey × UInt32) := do
  let name ← historyPrincipal
  let present ← getRecord name realm
  let record ← a.historyRecord env name realm present
  match record.entry.currentKvno with
  | none => fails (.backend "History entry contains no key data")
  | some kvno => pure (record.entry.keys.map (·.key), kvno)

def changedKeys (a : AdminOps) (env : Env) (name : PrincipalName) (realm : Str) (password : Option Str)
    (keepOld : Nat) (policy : Option MitPolicy) (policyName : Option Str)
    (hist : Option (List EncryptionKey × UInt32)) (rec : PrincipalRecord) : Except StoreError PrincipalRecord :=
  if rec.entry.policy ≠ policyName then .error (.conflict "principal policy changed concurrently; retry")
  else do
    let kvno := rec.entry.currentKvno.getD 0 + 1
    let etypes := if isHistoryPrincipal name then a.etypes.take 1 else a.etypes
    let keys ← a.makeKeys (env.fresh 0) name realm kvno etypes password
    let checkedRec ← checkReuse (env.writes 2).draw rec keys password policy hist
    .ok
      { checkedRec with
        entry :=
          { rec.entry with
            keys := keys ++ keptKeys keepOld rec.entry.keys
            attributes := Flags.remove rec.entry.attributes PrincipalAttributes.requiresPwchange
            securityEpoch := rec.entry.securityEpoch + 1
            pwExpiration := pwExpirationFrom env.now.toNat policy
            lastAdminUnlock := some (kerberosTime env.now.toNat) }
        lastPwdChange := some (kerberosTime env.now.toNat) }

def neededHistory (a : AdminOps) (env : Env) (realm : Str) (password : Option Str) (policy : Option MitPolicy)
    (current : PrincipalRecord) : Txn (Option (List EncryptionKey × UInt32)) :=
  if password.isSome ∧ policy.isSome ∧ current.passwordHistory.isSome then do
    let hist ← a.historyKeys env realm
    pure (some hist)
  else pure none

def changePasswordKeeping (a : AdminOps) (env : Env) (name : PrincipalName) (realm : Str) (password : Option Str)
    (keepOld : Nat) : Txn UInt32 :=
  if isHistoryPrincipal name ∧ (password.isSome ∨ 0 < keepOld) then fails (.rejected protectPrincipal)
  else do
    let current ← require name realm
    let policy ← checked (policyNamed env current.entry.policy)
    let hist ← a.neededHistory env realm password policy current
    checked (checkOptional env password policy name realm)
    let updated ← a.updatePrincipal (env.writes 0) name realm
      (a.changedKeys env name realm password keepOld policy current.entry.policy hist)
    pure (updated.entry.currentKvno.getD 0)

end

end

end AdminOps

end

end Krb5Rs
