import Krb5Rs.Admin

/-!
# The administration server

`Kadm5::write` of `krb5-rs-kadmind`: the calls that create, change and delete
principals or read their keys, over the klmdb store. Logging is not modelled.
-/

namespace Krb5Rs

open Wire (Bytes)
open Utf8 (Str)
open Flags (intersects)

/-! ## Codes -/

namespace Code

def ok : UInt32 := 0
def einval : UInt32 := 22
def base : UInt32 := 43787520
def failure : UInt32 := base
def authAdd : UInt32 := base + 2
def authModify : UInt32 := base + 3
def authDelete : UInt32 := base + 4
def authInsufficient : UInt32 := base + 5
def dup : UInt32 := base + 7
def unkPrinc : UInt32 := base + 12
def unkPolicy : UInt32 := base + 13
def badMask : UInt32 := base + 14
def badPrincipal : UInt32 := base + 18
def passQTooshort : UInt32 := base + 22
def passQClass : UInt32 := base + 23
def passReuse : UInt32 := base + 25
def passToosoon : UInt32 := base + 26
def protectPrincipal : UInt32 := base + 30
def badApiVersion : UInt32 := base + 35
def oldServerApiVersion : UInt32 := base + 37
def newServerApiVersion : UInt32 := base + 39
def badServerParams : UInt32 := base + 43
def authChangepw : UInt32 := base + 45
def badTlType : UInt32 := base + 47
def authSetkey : UInt32 := base + 50
def setkeyDupEnctypes : UInt32 := base + 51
def setkey3EtypeMismatch : UInt32 := base + 53
def badKeysalts : UInt32 := base + 58
def setkeyBadKvno : UInt32 := base + 59
def authExtract : UInt32 := base + 60
def authInitial : UInt32 := base + 62
def aliasRealm : UInt32 := base + 63
def aliasUnsupported : UInt32 := 2514958848 + 46

end Code

def aliasTarget : UInt16 := 0x000c
def aliasUnsupported : String := "Operation unsupported on alias principal name"

def rejections : List (String × UInt32) :=
  [(aliasUnsupported, Code.aliasUnsupported), (passQTooshort, Code.passQTooshort), (passQClass, Code.passQClass),
    (passReuse, Code.passReuse), (protectPrincipal, Code.protectPrincipal)]

def occursIn (t : List Char) : List Char → Bool
  | [] => t.isEmpty
  | c :: cs => t.isPrefixOf (c :: cs) || occursIn t cs

def storeCode (e : StoreError) (unknown : UInt32) : UInt32 :=
  match e.kind with
  | .notFound => unknown
  | .conflict => Code.dup
  | .rejected => ((rejections.find? fun r => occursIn r.1.toList e.message.toList).map (·.2)).getD Code.failure
  | _ => Code.failure

def checkApiVersion (api : UInt32) : UInt32 :=
  if api &&& 0xffffff00 ≠ 0x12345700 then Code.badApiVersion
  else if api < 0x12345702 then Code.oldServerApiVersion
  else if 0x12345704 < api then Code.newServerApiVersion
  else Code.ok

/-! ## Requests -/

structure PrincipalEnt where
  principal : Option Bytes
  princExpireTime : UInt32
  pwExpiration : UInt32
  maxLife : UInt32
  attributes : UInt32
  policy : Option Bytes
  maxRenewableLife : UInt32
  failAuthCount : UInt32
  tlData : List TlData
  keyData : List (UInt16 × UInt16 × Int16 × Int16)
deriving DecidableEq

abbrev KeySalt := Int32 × Int32

structure AdminKey where
  kvno : UInt32
  key : EncryptionKey
  saltType : Int16
  salt : Bytes
deriving DecidableEq

inductive SetKeys
  | v1 (blocks : List EncryptionKey)
  | v3 (ks : List KeySalt) (blocks : List EncryptionKey)
  | v4 (keys : List AdminKey)
deriving DecidableEq

inductive WriteArgs
  | createPrincipal (rec : PrincipalEnt) (mask : UInt32) (ks : Option (List KeySalt)) (passwd : Option Str)
  | deletePrincipal (princ : Option Str)
  | modifyPrincipal (rec : PrincipalEnt) (mask : UInt32)
  | renamePrincipal (src dest : Option Str)
  | chpassPrincipal (princ : Option Str) (keepold : Bool) (ks : List KeySalt) (pass : Option Str)
  | chrandPrincipal (princ : Option Str) (keepold : Bool) (ks : List KeySalt)
  | setkeyPrincipal (princ : Option Str) (keepold : Bool) (keys : SetKeys)
  | purgekeys (princ : Option Str) (keepkvno : Int32)
  | setString (princ key value : Option Str)
  | extractKeys (princ : Option Str) (kvno : UInt32)
  | createAlias (name target : Option Str)
deriving DecidableEq

/-- A code, with the key blocks of `chrand` or the key data of `extract_keys`. -/
structure Answer where
  code : UInt32
  blocks : List EncryptionKey := []
  keyData : List AdminKey := []
deriving DecidableEq

def Answer.keys (a : Answer) : List EncryptionKey := a.blocks ++ a.keyData.map (·.key)

structure AdminReply where
  api : UInt32
  answer : Answer
deriving DecidableEq

def setkeyData : SetKeys → Except UInt32 (List AdminKey)
  | .v1 blocks => .ok (blocks.map fun b => ⟨0, b, 0, []⟩)
  | .v3 ks blocks =>
    if ks.length ≠ blocks.length ∨ (ks.zip blocks).any (fun p => p.1.1 ≠ p.2.keytype) then
      .error Code.setkey3EtypeMismatch
    else
      (ks.zip blocks).mapM fun p =>
        if -2 ^ 15 ≤ p.1.2.toInt ∧ p.1.2.toInt < 2 ^ 15 then .ok ⟨0, p.2, p.1.2.toInt16, []⟩
        else .error Code.badKeysalts
  | .v4 keys => .ok keys

def ksSalt (t : Int32) : Option SaltType :=
  if t = 0 then some .normal else if t = 2 then some .noRealm else if t = 3 then some .onlyRealm else none

/-! ## The options of a record -/

def requestedEntry (rec : PrincipalEnt) : RestrictedEntry where
  attributes := rec.attributes
  policy := rec.policy.map Utf8.lossyStr
  princExpireTime := rec.princExpireTime.toInt32
  pwExpiration := rec.pwExpiration.toInt32
  maxLife := rec.maxLife.toInt32
  maxRenewableLife := rec.maxRenewableLife.toInt32

def imposeAll (now : Int32) (restr : List AclRestrictions) (ent : RestrictedEntry) (mask : UInt32) :
    RestrictedEntry × UInt32 :=
  restr.foldl (fun p r => r.impose now p.1 p.2) (ent, mask)

def optionalTime (t : Int32) : Option KerberosTime := if t ≠ 0 then some (kerberosTime t.toUInt32.toNat) else none

def optionalLife (t : Int32) : Option Duration := if t ≠ 0 then some ⟨t.toUInt32.toNat, 0⟩ else none

def optionsOf (ent : RestrictedEntry) (mask : UInt32) : PrincipalOptions :=
  { attributes := if intersects mask FieldMask.attributes then .exactly ent.attributes else {}
    maxLife := if intersects mask FieldMask.maxLife then some (optionalLife ent.maxLife) else none
    maxRenewableLife :=
      if intersects mask FieldMask.maxRlife then some (optionalLife ent.maxRenewableLife) else none
    expiration :=
      if intersects mask FieldMask.princExpireTime then some (optionalTime ent.princExpireTime) else none
    pwExpiration := if intersects mask FieldMask.pwExpiration then some (optionalTime ent.pwExpiration) else none
    policy :=
      if intersects mask FieldMask.policy then some ent.policy
      else if intersects mask FieldMask.policyClr then some none
      else none
    unlock := intersects mask FieldMask.failAuthCount }

/-- `principal_options`: the options of a record after the restrictions, and the restricted mask. -/
def principalOptions (now : Int32) (rec : PrincipalEnt) (mask : UInt32) (restr : List AclRestrictions) :
    PrincipalOptions × UInt32 :=
  let (ent, mask) := imposeAll now restr (requestedEntry rec) mask
  (optionsOf ent mask, mask)

def createForbidden : UInt32 :=
  FieldMask.modName ||| FieldMask.modTime ||| FieldMask.lastPwdChange ||| FieldMask.mkvno |||
    FieldMask.auxAttributes ||| FieldMask.lastSuccess ||| FieldMask.lastFailed ||| FieldMask.failAuthCount

def modifyForbidden : UInt32 :=
  FieldMask.principal ||| FieldMask.lastPwdChange ||| FieldMask.modTime ||| FieldMask.modName ||| FieldMask.mkvno |||
    FieldMask.auxAttributes ||| FieldMask.keyData ||| FieldMask.lastSuccess ||| FieldMask.lastFailed

/-- The mask is not one of the fields a principal has, or names a policy it does not give. -/
def badPolicyMask (rec : PrincipalEnt) (mask : UInt32) : Bool :=
  (intersects mask FieldMask.policy ∧ rec.policy = none) ∨
    (intersects mask FieldMask.policy ∧ intersects mask FieldMask.policyClr) ∨
    intersects mask (~~~FieldMask.allPrinc)

def badTlKinds (rec : PrincipalEnt) (mask : UInt32) : Bool :=
  intersects mask FieldMask.tlData ∧ rec.tlData.any fun t => t.kind.toNat < 256

def requestedTl (rec : PrincipalEnt) (mask : UInt32) : List TlData :=
  if intersects mask FieldMask.tlData then rec.tlData else []

def createCheck (rec : PrincipalEnt) (mask : UInt32) : UInt32 :=
  if intersects mask FieldMask.principal = false ∨ intersects mask createForbidden ∨
      (intersects mask FieldMask.keyData ∧ rec.keyData ≠ []) ∨ badPolicyMask rec mask then Code.badMask
  else if badTlKinds rec mask then Code.badTlType
  else Code.ok

def modifyCheck (rec : PrincipalEnt) (mask : UInt32) : UInt32 :=
  if intersects mask modifyForbidden ∨ badPolicyMask rec mask then Code.badMask
  else if badTlKinds rec mask then Code.badTlType
  else if intersects mask FieldMask.failAuthCount ∧ rec.failAuthCount ≠ 0 then Code.badServerParams
  else Code.ok

section
variable [Alphabet]

/-! ## Edits of stored entries -/

def specializeSalt (e : MitEntry) : MitEntry :=
  { e with
    keyData := e.keyData.map fun k =>
      let salt : Int16 × Bytes := (k.fields[1]?).getD (0, [])
      let bytes :=
        if k.ver = 1 ∨ salt.1 = 0 then saltBytes e.principal e.realm .normal
        else if salt.1 = 2 then saltBytes e.principal e.realm .noRealm
        else if salt.1 = 3 then e.realm.bytes
        else salt.2
      { k with ver := 2, fields := k.fields.take 1 ++ [(4, bytes)] } }

def renamed (now : UInt32) (modifier : Bytes) (dest : Princ) (e : MitEntry) : Except StoreError MitEntry :=
  if (e.tl aliasTarget).isSome then .error (.rejected aliasUnsupported)
  else setModPrinc { specializeSalt e with principal := dest.name, realm := dest.realm } now modifier

def aliasEntry (name target : Princ) : MitEntry where
  principal := name.name
  realm := name.realm
  attributes := PrincipalAttributes.disallowAllTix
  maxLife := 0
  maxRenewableLife := 0
  expiration := 0
  pwExpiration := 0
  lastSuccess := 0
  lastFailed := 0
  failAuthCount := 0
  tlData := [⟨aliasTarget, Utf8.lossy target.key ++ [0]⟩]
  keyData := []

def setKeyChange (e : MitEntry) (seconds : UInt32) : MitEntry :=
  setTl (setTl e lastPwdChange (some (Codec.u32 seconds))) lastAdminUnlock (some (Codec.u32 seconds))

def maxKvno (keys : List KeyData) : UInt16 := ((keys.map (·.kvno)).max?).getD 0

def purged (now : UInt32) (modifier : Bytes) (keepkvno : Int32) (e : MitEntry) : Except StoreError MitEntry :=
  let keep := if 0 < keepkvno.toInt ∧ keepkvno.toInt < 2 ^ 16 then UInt16.ofInt keepkvno.toInt else maxKvno e.keyData
  setModPrinc { e with keyData := e.keyData.filter fun k => keep ≤ k.kvno } now modifier

def withString (now : UInt32) (modifier key : Bytes) (value : Option Bytes) (e : MitEntry) :
    Except StoreError MitEntry := do
  let e ← setStringAttr e key value
  setModPrinc e now modifier

/-- The version the new keys get, or none when it is taken and old keys are kept. -/
def setkeyKvno (keepold : Bool) (kvno : UInt32) (e : MitEntry) : Option Nat :=
  if kvno = 0 then some ((maxKvno e.keyData).toNat + 1)
  else if keepold ∧ e.keyData.any (fun k => k.kvno.toUInt32 = kvno) then none
  else some kvno.toNat

def setkeyItem [Crypto] (confounder : Bytes) (master : EncryptionKey) (kvno : UInt16) (k : AdminKey) :
    Except StoreError KeyData :=
  if -2 ^ 15 ≤ k.key.keytype.toInt ∧ k.key.keytype.toInt < 2 ^ 15 then do
    let blob ← encryptKey confounder master k.key
    .ok ⟨2, kvno, [(k.key.keytype.toInt16, blob), (k.saltType, k.salt)]⟩
  else .error (.backend "MIT enctype exceeds i16")

def withKeys [Crypto] (now : UInt32) (draw : Nat → Bytes) (modifier : Bytes) (keys : List AdminKey)
    (pwMaxLife : UInt32) (e : MitEntry) (mk : MasterKeys) (kvno : Nat) : Except StoreError MitEntry :=
  if 2 ^ 16 ≤ kvno then .error (.backend "MIT key version exceeds u16")
  else do
    let version ← entryMkvno e
    match mk.get version with
    | none => .error (.backend "master key version not found")
    | some master => do
      let keyData ← keys.zipIdx.mapM fun k => setkeyItem (draw k.2) master (UInt16.ofNat kvno) k.1
      let pwExpiration :=
        if pwMaxLife = 0 then 0
        else if 2 ^ 32 ≤ now.toNat + pwMaxLife.toNat then 4294967295
        else now + pwMaxLife
      setModPrinc
        (setKeyChange
          { e with
            keyData
            attributes := Flags.remove e.attributes PrincipalAttributes.requiresPwchange
            pwExpiration }
          now)
        now modifier

/-- `setkey`'s edit; none when the version is taken. -/
def setkeyEdit [Crypto] (now : UInt32) (draw : Nat → Bytes) (modifier : Bytes) (keepold : Bool) (keys : List AdminKey)
    (pwMaxLife : UInt32) (e : MitEntry) (mk : MasterKeys) : Except StoreError (Option MitEntry) :=
  match setkeyKvno keepold ((keys.head?.map (·.kvno)).getD 0) e with
  | none => .ok none
  | some kvno => (withKeys now draw modifier keys pwMaxLife e mk kvno).map some

/-! ## Callers -/

structure Caller where
  client : Princ
  clientName : Str
  changepw : Bool
  initial : Bool

def clampKeepold (caller : Caller) (p : Princ) (keepold : Bool) : Nat :=
  if keepold = false then 0 else if caller.client = p then 5 else 1

structure Kadm5 where
  realm : Str
  acl : List AclEntry
  keysalts : List (Int32 × SaltType)
  historyEnctype : Int32
  maxLife : Duration
  maxRlife : Duration
  expiration : Option KerberosTime
  flags : UInt32

namespace Kadm5

def permitsRestr (k : Kadm5) (caller : Caller) (req : Request) : Option (List AclRestrictions) :=
  authorize k.acl caller.client req

def permits (k : Kadm5) (caller : Caller) (req : Request) : Bool := (k.permitsRestr caller req).isSome

def name (k : Kadm5) (princ : Option Str) : Except UInt32 Princ :=
  match princ with
  | none => .error Code.badPrincipal
  | some s =>
    match parseNameInner s.bytes (some k.realm.bytes) with
    | .ok (name, realm) => .ok ⟨name, realm⟩
    | .error _ => .error Code.badPrincipal

def recName (k : Kadm5) (rec : PrincipalEnt) : Except UInt32 Princ := k.name (rec.principal.map Utf8.lossyStr)

def rawEntry (env : Env) (s : LmdbStore) (p : Princ) : Except StoreError (Option MitEntry) := do
  let raw ← s.getRaw p.name p.realm
  match raw with
  | none => .ok none
  | some e => do
    env.lockoutRecord p.key
    .ok (some e)

def lockdown (env : Env) (s : LmdbStore) (p : Princ) : Except UInt32 Bool :=
  match rawEntry env s p with
  | .ok (some e) => .ok (intersects e.attributes lockdownKeys)
  | .ok none => .error Code.unkPrinc
  | .error e => .error (storeCode e Code.unkPrinc)

def stubRec (k : Kadm5) (env : Env) (s : LmdbStore) (princ : Option Str) : UInt32 :=
  match k.name princ with
  | .error c => c
  | .ok p =>
    match lockdown env s p with
    | .ok _ => Code.ok
    | .error c => c

/-- A call on the store, and what follows or the answer to its error. A panic is not answered. -/
def answering {α β : Type} (m : Txn α) (refusal : StoreError → β) (f : α → Txn β) : Txn β := fun s =>
  match m s with
  | .ok a s => f a s
  | .error (.error e) s => .ok (refusal e) s
  | .error .panicked s => .error .panicked s

def coded {α : Type} (unknown : UInt32) (m : Txn α) : Txn UInt32 :=
  answering m (storeCode · unknown) fun _ => pure Code.ok

def saltTypes (k : Kadm5) (ks : List KeySalt) : Except UInt32 (List (Int32 × SaltType)) :=
  if ks = [] then .ok k.keysalts
  else
    match ks.mapM (fun p => (ksSalt p.2).map fun t => (p.1, t)) with
    | some keysalts => .ok keysalts
    | none => .error Code.badKeysalts

def adminWith (k : Kadm5) (caller : Caller) (ks : List KeySalt) (tlData : List TlData) : Except UInt32 AdminOps := do
  let keysalts ← k.saltTypes ks
  .ok { modifier := caller.clientName.bytes, tlData, keysalts, historyEnctype := k.historyEnctype }

section
variable [Crypto]

/-! ## Changes of keys -/

def tooSoon (env : Env) (rec : PrincipalRecord) (policy : MitPolicy) : UInt32 :=
  let last := (rec.lastPwdChange.map (·.seconds)).getD 0
  if (env.now.toNat : Int) - last < policy.pwMinLife.toNat ∧
      intersects rec.entry.attributes PrincipalAttributes.requiresPwchange = false then Code.passToosoon
  else Code.ok

def minLifeCode (env : Env) (rec : PrincipalRecord) : UInt32 :=
  match rec.entry.policy with
  | none => Code.ok
  | some name =>
    match env.policies name with
    | .ok none => Code.ok
    | .ok (some policy) => tooSoon env rec policy
    | .error e => if e.kind = .notFound then Code.ok else storeCode e Code.unkPolicy

def selfKeychange (env : Env) (p : Princ) : Txn UInt32 :=
  answering (AdminOps.require p.name p.realm) (storeCode · Code.unkPrinc) fun rec => pure (minLifeCode env rec)

def checkSelfKeychange (env : Env) (caller : Caller) (p : Princ) : Txn UInt32 :=
  if caller.client ≠ p then pure Code.ok
  else if caller.initial = false then pure Code.authInitial
  else selfKeychange env p

def keychangeAuth (k : Kadm5) (env : Env) (s : LmdbStore) (caller : Caller) (req : Princ → Request)
    (princ : Option Str) : Except UInt32 (Princ × Bool) := do
  let p ← k.name princ
  let locked ← lockdown env s p
  if (caller.changepw ∧ caller.client ≠ p) ∨ k.permits caller (req p) = false then .error Code.authChangepw
  else .ok (p, locked)

def keysOf (rec : PrincipalRecord) (kvno : UInt32) : List KeyEntry :=
  let kvno := if kvno = 0 then rec.entry.currentKvno.getD 0 else kvno
  rec.entry.keys.filter fun k => k.kvno = kvno

def currentKeys (p : Princ) (kvno : UInt32) (form : List KeyEntry → Answer) : Txn Answer :=
  answering (AdminOps.require p.name p.realm) (fun e => { code := storeCode e Code.unkPrinc }) fun rec =>
    pure (form (keysOf rec kvno))

def blocksOf (keys : List KeyEntry) : Answer := { code := Code.ok, blocks := keys.map (·.key) }

def extracted (keys : List KeyEntry) : Answer :=
  { code := Code.ok
    keyData := keys.map fun k => ⟨k.kvno, k.key, if k.salt.isSome then 4 else 0, k.salt.getD []⟩ }

section
variable [KeyGen]

def chpassWith (env : Env) (caller : Caller) (admin : AdminOps) (p : Princ) (keepold : Bool) (pw : Str) : Txn UInt32 :=
  coded Code.unkPrinc
    (admin.changePasswordKeeping env p.name p.realm (some pw) (clampKeepold caller p keepold))

def chpassTo (k : Kadm5) (env : Env) (caller : Caller) (p : Princ) (keepold : Bool) (pass : Option Str)
    (ks : List KeySalt) : Txn UInt32 := do
  let c ← checkSelfKeychange env caller p
  if c ≠ Code.ok then pure c
  else
    match pass, k.adminWith caller ks [] with
    | none, _ => pure Code.einval
    | some _, .error c => pure c
    | some pw, .ok admin => chpassWith env caller admin p keepold pw

def chpass (k : Kadm5) (env : Env) (caller : Caller) (princ : Option Str) (keepold : Bool) (pass : Option Str)
    (ks : List KeySalt) : Txn UInt32 := do
  let s ← get
  match k.keychangeAuth env s caller .cpw princ with
  | .error c => pure c
  | .ok (p, locked) => if locked then pure Code.authChangepw else k.chpassTo env caller p keepold pass ks

def randomized (env : Env) (caller : Caller) (admin : AdminOps) (p : Princ) (keepold : Bool) : Txn Answer :=
  answering (admin.changePasswordKeeping env p.name p.realm none (clampKeepold caller p keepold))
    (fun e => { code := storeCode e Code.unkPrinc }) fun kvno => currentKeys p kvno blocksOf

def chrandTo (k : Kadm5) (env : Env) (caller : Caller) (p : Princ) (keepold : Bool) (ks : List KeySalt) :
    Txn Answer := do
  let c ← checkSelfKeychange env caller p
  if c ≠ Code.ok then pure { code := c }
  else
    match k.adminWith caller ks [] with
    | .error c => pure { code := c }
    | .ok admin => randomized env caller admin p keepold

def chrand (k : Kadm5) (env : Env) (caller : Caller) (princ : Option Str) (keepold : Bool) (ks : List KeySalt) :
    Txn Answer := do
  let s ← get
  match k.keychangeAuth env s caller .chrand princ with
  | .error c => pure { code := c }
  | .ok (p, locked) => do
    let answer ← k.chrandTo env caller p keepold ks
    pure { answer with blocks := if locked then [] else answer.blocks }

end

def extractKeys (k : Kadm5) (env : Env) (caller : Caller) (princ : Option Str) (kvno : UInt32) :
    Txn Answer := do
  let s ← get
  match k.name princ with
  | .error c => pure { code := c }
  | .ok p =>
    if caller.changepw ∨ k.permits caller (.extract p) = false then pure { code := Code.authExtract }
    else
      match lockdown env s p with
      | .error c => pure { code := c }
      | .ok true => pure { code := Code.authExtract }
      | .ok false => currentKeys p kvno extracted

def policyLife (env : Env) (rec : PrincipalRecord) : Except StoreError UInt32 :=
  match rec.entry.policy with
  | none => .ok 0
  | some name => do
    let policy ← env.policies name
    .ok ((policy.map (·.pwMaxLife)).getD 0)

def storedLife (env : Env) (p : Princ) : Txn UInt32 := do
  let rec' ← AdminOps.require p.name p.realm
  LmdbStore.checked (policyLife env rec')

def setkeyWrite (env : Env) (caller : Caller) (p : Princ) (keepold : Bool) (keys : List AdminKey) (life : UInt32) :
    Txn UInt32 :=
  answering
    (LmdbStore.updateRaw (env.writes 0) p.name p.realm
      (setkeyEdit env.now (env.writes 0).draw caller.clientName.bytes keepold keys life))
    (storeCode · Code.unkPrinc) fun written => pure (if written then Code.ok else Code.setkeyBadKvno)

def setkeyStore (env : Env) (caller : Caller) (p : Princ) (keepold : Bool) (keys : List AdminKey) : Txn UInt32 :=
  answering (storedLife env p) (storeCode · Code.unkPrinc) (setkeyWrite env caller p keepold keys)

def setkeyList (env : Env) (caller : Caller) (p : Princ) (keepold : Bool) (keys : List AdminKey) : Txn UInt32 :=
  if keys = [] then pure Code.einval
  else if keys.any fun k => some k.kvno ≠ keys.head?.map (·.kvno) then pure Code.setkeyBadKvno
  else if ¬ (keys.map fun k => (k.key.keytype, k.saltType)).Nodup then pure Code.setkeyDupEnctypes
  else setkeyStore env caller p keepold keys

def setkeyTo (env : Env) (caller : Caller) (p : Princ) (keepold : Bool) (keys : SetKeys) : Txn UInt32 :=
  if Utf8.lossy p.key = ascii "kadmin/history@" ++ p.realm.bytes then pure Code.protectPrincipal
  else
    match setkeyData keys with
    | .error c => pure c
    | .ok keys => setkeyList env caller p keepold keys

def setkey (k : Kadm5) (env : Env) (caller : Caller) (princ : Option Str) (keepold : Bool) (keys : SetKeys) :
    Txn UInt32 := do
  let s ← get
  match k.name princ with
  | .error c => pure c
  | .ok p =>
    if caller.changepw ∨ k.permits caller (.setKey p) = false then pure Code.authSetkey
    else
      match lockdown env s p with
      | .error c => pure c
      | .ok true => pure Code.authSetkey
      | .ok false => setkeyTo env caller p keepold keys

def purgekeys (k : Kadm5) (env : Env) (caller : Caller) (princ : Option Str) (keepkvno : Int32) : Txn UInt32 :=
  match k.name princ with
  | .error c => pure c
  | .ok p =>
    if caller.changepw ∨ k.permits caller (.purgeKeys p) = false then pure Code.authModify
    else
      coded Code.unkPrinc <| LmdbStore.updateRaw (env.writes 0) p.name p.realm fun e _ =>
        (purged env.now caller.clientName.bytes keepkvno e).map some

def setString (k : Kadm5) (env : Env) (caller : Caller) (princ key value : Option Str) : Txn UInt32 :=
  match k.name princ with
  | .error c => pure c
  | .ok p =>
    if caller.changepw ∨ k.permits caller (.setStr p) = false then pure Code.authModify
    else
      match key with
      | none => pure Code.einval
      | some key =>
        coded Code.unkPrinc <| LmdbStore.updateRaw (env.writes 0) p.name p.realm fun e _ =>
          (withString env.now caller.clientName.bytes key.bytes (value.map (·.bytes)) e).map some

/-! ## Changes of principals -/

def renamePrincipal (k : Kadm5) (env : Env) (caller : Caller) (src dest : Option Str) : Txn UInt32 := do
  let s ← get
  match k.name src, k.name dest with
  | .error c, _ => pure c
  | .ok _, .error c => pure c
  | .ok sp, .ok dp =>
    if caller.changepw ∨ k.permits caller (.renPrinc sp dp) = false then pure Code.authInsufficient
    else
      match lockdown env s sp with
      | .ok true => pure Code.authInsufficient
      | .error c => pure c
      | .ok false =>
        if sp.realm ≠ dp.realm then pure Code.failure
        else
          coded Code.unkPrinc <| LmdbStore.renameRaw (env.writes 0) sp.name sp.realm fun e _ =>
            renamed env.now caller.clientName.bytes dp e

def createAlias (k : Kadm5) (env : Env) (caller : Caller) (name target : Option Str) : Txn UInt32 :=
  match k.name name, k.name target with
  | .error c, _ => pure c
  | .ok _, .error c => pure c
  | .ok ap, .ok tp =>
    if caller.changepw ∨ k.permits caller (.addAlias ap tp) = false then pure Code.authInsufficient
    else if ap.realm ≠ tp.realm then pure Code.aliasRealm
    else
      coded Code.unkPrinc do
        let e ← LmdbStore.checked (setModPrinc (aliasEntry ap tp) env.now caller.clientName.bytes)
        LmdbStore.createRaw (env.writes 0) e

def withDefaults (k : Kadm5) (opts : PrincipalOptions) (mask : UInt32) : PrincipalOptions :=
  { opts with
    attributes := if intersects mask FieldMask.attributes then opts.attributes else .exactly k.flags
    maxLife :=
      if intersects mask FieldMask.maxLife then opts.maxLife
      else some (if k.maxLife = ⟨0, 0⟩ then none else some k.maxLife)
    maxRenewableLife :=
      if intersects mask FieldMask.maxRlife then opts.maxRenewableLife
      else some (if k.maxRlife = ⟨0, 0⟩ then none else some k.maxRlife)
    expiration := if intersects mask FieldMask.princExpireTime then opts.expiration else some k.expiration }

def createWith [KeyGen] (k : Kadm5) (env : Env) (p : Princ) (rec : PrincipalEnt) (mask : UInt32)
    (restr : List AclRestrictions) (passwd : Option Str) (admin : AdminOps) : Txn UInt32 :=
  let (opts, mask) := principalOptions env.now.toInt32 rec mask restr
  coded Code.unkPolicy (admin.addPrincipal env p.name p.realm passwd (k.withDefaults opts mask))

def createPrincipal [KeyGen] (k : Kadm5) (env : Env) (caller : Caller) (rec : PrincipalEnt) (mask : UInt32)
    (passwd : Option Str) (ks : List KeySalt) : Txn UInt32 :=
  match k.recName rec with
  | .error c => pure c
  | .ok p =>
    match k.permitsRestr caller (.addPrinc p) with
    | none => pure Code.authAdd
    | some restr =>
      if caller.changepw then pure Code.authAdd
      else if createCheck rec mask ≠ Code.ok then pure (createCheck rec mask)
      else
        match k.adminWith caller ks (requestedTl rec mask) with
        | .error c => pure c
        | .ok admin => k.createWith env p rec mask restr passwd admin

/-- The change asked for would unset `LOCKDOWN_KEYS`, as far as the request itself says. -/
def unsetsLockdown (rec : PrincipalEnt) (mask : UInt32) : Bool :=
  intersects mask FieldMask.attributes ∧ intersects rec.attributes lockdownKeys = false

def modifyAllowed (env : Env) (s : LmdbStore) (p : Princ) (rec : PrincipalEnt) (mask : UInt32) : UInt32 :=
  if unsetsLockdown rec mask then
    match lockdown env s p with
    | .ok true => Code.authModify
    | .ok false => Code.ok
    | .error c => c
  else Code.ok

def modifyWith (k : Kadm5) (env : Env) (caller : Caller) (p : Princ) (rec : PrincipalEnt) (mask : UInt32)
    (restr : List AclRestrictions) : Txn UInt32 :=
  if modifyCheck rec mask ≠ Code.ok then pure (modifyCheck rec mask)
  else
    match k.adminWith caller [] (requestedTl rec mask) with
    | .error c => pure c
    | .ok admin =>
      coded Code.unkPrinc
        (admin.modifyPrincipal env p.name p.realm (principalOptions env.now.toInt32 rec mask restr).1)

def modifyPrincipal (k : Kadm5) (env : Env) (caller : Caller) (rec : PrincipalEnt) (mask : UInt32) : Txn UInt32 := do
  let s ← get
  match k.recName rec with
  | .error c => pure c
  | .ok p =>
    match k.permitsRestr caller (.modPrinc p) with
    | none => pure Code.authModify
    | some restr =>
      if caller.changepw then pure Code.authModify
      else if modifyAllowed env s p rec mask ≠ Code.ok then pure (modifyAllowed env s p rec mask)
      else k.modifyWith env caller p rec mask restr

def deletePrincipal (k : Kadm5) (env : Env) (caller : Caller) (princ : Option Str) : Txn UInt32 := do
  let s ← get
  match k.name princ with
  | .error c => pure c
  | .ok p =>
    if caller.changepw ∨ k.permits caller (.delPrinc p) = false then pure Code.authDelete
    else
      match lockdown env s p with
      | .ok true => pure Code.authDelete
      | .error c => pure c
      | .ok false => coded Code.unkPrinc (AdminOps.deletePrincipal env p.name p.realm)

/-! ## Dispatch -/

def stubTarget : WriteArgs → Option (Option Str)
  | .chrandPrincipal princ _ _ => some princ
  | .extractKeys princ _ => some princ
  | .chpassPrincipal princ _ _ _ => some princ
  | .setkeyPrincipal princ _ _ => some princ
  | .purgekeys princ _ => some princ
  | .setString princ _ _ => some princ
  | .modifyPrincipal rec _ => some (rec.principal.map Utf8.lossyStr)
  | _ => none

def noKeys (m : Txn UInt32) : Txn Answer := do
  let c ← m
  pure { code := c }

def handle [KeyGen] (k : Kadm5) (env : Env) (caller : Caller) : WriteArgs → Txn Answer
  | .createPrincipal rec mask ks passwd => noKeys (k.createPrincipal env caller rec mask passwd (ks.getD []))
  | .deletePrincipal princ => noKeys (k.deletePrincipal env caller princ)
  | .modifyPrincipal rec mask => noKeys (k.modifyPrincipal env caller rec mask)
  | .renamePrincipal src dest => noKeys (k.renamePrincipal env caller src dest)
  | .chpassPrincipal princ keepold ks pass => noKeys (k.chpass env caller princ keepold pass ks)
  | .chrandPrincipal princ keepold ks => k.chrand env caller princ keepold ks
  | .setkeyPrincipal princ keepold keys => noKeys (k.setkey env caller princ keepold keys)
  | .purgekeys princ keepkvno => noKeys (k.purgekeys env caller princ keepkvno)
  | .setString princ key value => noKeys (k.setString env caller princ key value)
  | .extractKeys princ kvno => k.extractKeys env caller princ kvno
  | .createAlias name target => noKeys (k.createAlias env caller name target)

def refused (k : Kadm5) (env : Env) (s : LmdbStore) (args : WriteArgs) : UInt32 :=
  match stubTarget args with
  | some princ => k.stubRec env s princ
  | none => Code.ok

def write [KeyGen] (k : Kadm5) (env : Env) (caller : Caller) (api : UInt32) (args : WriteArgs) : Txn AdminReply := do
  let s ← get
  if checkApiVersion api ≠ Code.ok then pure ⟨0, { code := checkApiVersion api }⟩
  else if k.refused env s args ≠ Code.ok then pure ⟨api, { code := k.refused env s args }⟩
  else do
    let answer ← k.handle env caller args
    pure ⟨api, answer⟩

end

end Kadm5

end

end Krb5Rs
