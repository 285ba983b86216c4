import Krb5Rs.Flags
import Krb5Rs.Mkey
import Krb5Rs.OsaXdr

/-!
# Records and MIT entries

`kdb/mit/tl.rs`: a principal record is spread over the fields, the TL data and
the encrypted key data of an MIT entry (`merge_record`) and read back by
`record_from_entry`.
-/

namespace Krb5Rs

open Wire (Bytes Reader)
open Utf8 (Str)

def constrainedDelegationAcl : UInt16 := 0x0400
def lastAdminUnlock : UInt16 := 0x0700
def kadm5Policy : Int32 := 0x00000800

def allowedToDelegateFromAttr : Bytes := ascii "krb5rs_allowed_to_delegate_from"
def requireAuthKey : Bytes := ascii "require_auth"

structure KerberosTime where
  seconds : Int
  nanos : Nat
deriving Repr, DecidableEq

structure Duration where
  secs : Nat
  nanos : Nat
deriving Repr, DecidableEq

structure KeyEntry where
  kvno : UInt32
  key : EncryptionKey
  salt : Option Bytes
  s2kparams : Option Bytes
deriving Repr, DecidableEq

structure PasswordHistory where
  adminHistoryKvno : UInt32 := 0
  oldKeyNext : UInt32 := 0
  oldKeys : List (List KeyData) := []
deriving Repr, DecidableEq

namespace PrincipalAttributes

abbrev disallowForwardable : UInt32 := Flags.bit 1
abbrev disallowTgtBased : UInt32 := Flags.bit 2
abbrev disallowRenewable : UInt32 := Flags.bit 3
abbrev disallowProxiable : UInt32 := Flags.bit 4
abbrev disallowDupSkey : UInt32 := Flags.bit 5
abbrev disallowAllTix : UInt32 := Flags.bit 6
abbrev requiresPreAuth : UInt32 := Flags.bit 7
abbrev requiresHwAuth : UInt32 := Flags.bit 8
abbrev requiresPwchange : UInt32 := Flags.bit 9
abbrev disallowSvr : UInt32 := Flags.bit 12
abbrev okAsDelegate : UInt32 := Flags.bit 20
abbrev okToAuthAsDelegate : UInt32 := Flags.bit 21

end PrincipalAttributes

structure PrincipalEntry [Alphabet] where
  name : PrincipalName
  realm : Str
  attributes : UInt32 := 0
  maxLife : Option Duration := none
  maxRenewableLife : Option Duration := none
  expiration : Option KerberosTime := none
  pwExpiration : Option KerberosTime := none
  keys : List KeyEntry := []
  allowedToDelegateTo : List Str := []
  allowedToDelegateFrom : List Str := []
  requireAuth : Option Str := none
  policy : Option Str := none
  securityEpoch : UInt64 := 0
  lastAdminUnlock : Option KerberosTime := none
deriving DecidableEq

structure PrincipalRecord [Alphabet] where
  entry : PrincipalEntry
  lastPwdChange : Option KerberosTime := none
  modTime : Option KerberosTime := none
  modBy : Option Bytes := none
  passwordHistory : Option PasswordHistory := none
  unlock : Bool := false
deriving DecidableEq

def kerberosTime (seconds : Int) : KerberosTime := ⟨seconds, 0⟩

def timestamp : Option KerberosTime → Except StoreError UInt32
  | none => .ok 0
  | some time =>
    if 0 ≤ time.seconds ∧ time.seconds < 2 ^ 32 then .ok (UInt32.ofInt time.seconds)
    else .error (.backend "MIT timestamp is outside the u32 range")

def fromTimestamp (value : UInt32) : Option KerberosTime :=
  if value ≠ 0 then some (kerberosTime value.toNat) else none

def duration : Option Duration → Except StoreError UInt32
  | none => .ok 0
  | some d =>
    if d.secs < 2 ^ 32 then .ok (UInt32.ofNat d.secs)
    else .error (.backend "MIT lifetime is outside the u32 range")

def fromDuration (value : UInt32) : Option Duration := if value ≠ 0 then some ⟨value.toNat, 0⟩ else none

inductive SaltType
  | normal
  | noRealm
  | onlyRealm
deriving Repr, DecidableEq

def saltBytes [Alphabet] (name : PrincipalName) (realm : Str) : SaltType → Bytes
  | .normal => realm.bytes ++ name.components.flatten
  | .noRealm => name.components.flatten
  | .onlyRealm => realm.bytes

section
variable [Alphabet]

def setTl (entry : MitEntry) (kind : UInt16) (data : Option Bytes) : MitEntry := entry.putTl kind data

def hexKind (kind : UInt16) : String :=
  let digits := Nat.toDigits 16 kind.toNat
  "0x" ++ String.ofList (List.replicate (4 - digits.length) '0' ++ digits)

def getU32Tl (entry : MitEntry) (kind : UInt16) : Except StoreError (Option UInt32) :=
  match entry.tl kind with
  | none => .ok none
  | some bytes =>
    if bytes.length = 4 then .ok (some (ofU32 bytes))
    else .error (.corrupt ("MIT tl-data " ++ hexKind kind ++ " must be 4 bytes"))

/-! ## String attributes -/

abbrev StringAttribute := Bytes × Bytes

def nulTerminated (err : StoreError) : Reader StoreError Bytes := fun bs =>
  if 0 ∈ bs then .ok (bs.takeWhile (· ≠ 0), (bs.dropWhile (· ≠ 0)).drop 1) else .error err

def attrPair : Reader StoreError StringAttribute := do
  let key ← nulTerminated (.corrupt "unterminated key in MIT STRING_ATTRS")
  let value ← nulTerminated (.corrupt "unterminated value in MIT STRING_ATTRS")
  pure (key, value)

def attrPairsIn (tlData : List TlData) : Except StoreError (List StringAttribute) :=
  match Tagged.find stringAttrs tlData with
  | none => .ok []
  | some bytes => Wire.untilEnd attrPair bytes.length bytes

def attrPairs (entry : MitEntry) : Except StoreError (List StringAttribute) := attrPairsIn entry.tlData

def attrText (pair : StringAttribute) : Bytes := pair.1 ++ [0] ++ pair.2 ++ [0]

def putAttrPairs (entry : MitEntry) (pairs : List StringAttribute) : MitEntry :=
  if pairs ≠ [] ∨ (entry.tl stringAttrs).isSome then
    setTl entry stringAttrs (some (pairs.flatMap attrText))
  else entry

def editAttrs (pairs : List StringAttribute) (key : Bytes) : Option Bytes → List StringAttribute
  | none => pairs.filter fun pair => pair.1 ≠ key
  | some value =>
    let edited := pairs.map fun pair => if pair.1 = key then (key, value) else pair
    if key ∈ pairs.map (·.1) then edited else edited ++ [(key, value)]

def setStringAttr (entry : MitEntry) (key : Bytes) (value : Option Bytes) : Except StoreError MitEntry := do
  let pairs ← attrPairs entry
  .ok (putAttrPairs entry (editAttrs pairs key value))

/-! ## Names in TL data -/

def delegationName (data : Bytes) : Except StoreError Str :=
  if data.getLast? ≠ some 0 then
    .error (.corrupt "MIT constrained-delegation ACL lacks a NUL terminator")
  else if 0 ∈ data.dropLast then .error (.corrupt "embedded NUL in MIT constrained-delegation ACL")
  else
    match Str.ofUtf8 data.dropLast with
    | some name => .ok name
    | none => .error (.corrupt "MIT constrained-delegation name is not UTF-8")

def constrainedDelegationValues (entry : MitEntry) : Except StoreError (List Str) :=
  (Tagged.valuesAt constrainedDelegationAcl entry.tlData).mapM delegationName

/-- Not four bytes, a name without NUL and a NUL. -/
def malformedModPrinc (bytes : Bytes) : Prop :=
  bytes.length < 5 ∨ bytes.getLast? ≠ some 0 ∨ 0 ∈ (bytes.drop 4).dropLast

instance (bytes : Bytes) : Decidable (malformedModPrinc bytes) :=
  inferInstanceAs (Decidable (_ ∨ _ ∨ _))

def modPrincipalData (entry : MitEntry) : Except StoreError (Option (UInt32 × Bytes)) :=
  match entry.tl modPrinc with
  | none => .ok none
  | some bytes =>
    if malformedModPrinc bytes then .error (.corrupt "malformed MIT MOD_PRINC tl-data")
    else .ok (some (ofU32 (bytes.take 4), (bytes.drop 4).dropLast))

def policyFromOsa (osa : OsaPrincipalData) : Except StoreError (Option Str) :=
  if osa.auxAttributes &&& kadm5Policy = 0 then .ok none
  else
    match osa.policy with
    | none => .error (.corrupt "MIT KADM_DATA policy bit set without a policy name")
    | some name =>
      match Str.ofUtf8 name with
      | none => .error (.corrupt "MIT KADM_DATA policy name is not UTF-8")
      | some name => .ok (some name)

def policyAndHistoryFromTl (entry : MitEntry) : Except StoreError (Option Str × PasswordHistory) :=
  match entry.tl kadmData with
  | none => .ok (none, {})
  | some bytes => do
    let osa ← Osa.decode bytes
    let policy ← policyFromOsa osa
    .ok (policy,
      { adminHistoryKvno := osa.adminHistoryKvno, oldKeyNext := osa.oldKeyNext, oldKeys := osa.oldKeys })

/-! ## Keys -/

def keySaltFromData (data : KeyData) (principal : PrincipalName) (realm : Str) :
    Except StoreError (Option Bytes) :=
  if data.ver = 1 then .ok none
  else if data.ver = 2 then
    match data.fields[1]? with
    | none => .error (.corrupt "MIT version-2 key-data has no salt field")
    | some (saltType, contents) =>
      if saltType = 0 then .ok none
      else if saltType = 2 then .ok (some (saltBytes principal realm .noRealm))
      else if saltType = 3 then .ok (some realm.bytes)
      else .ok (some contents)
  else .error (.corrupt "unsupported MIT key-data version")

def keyDataWithSalt (kvno : UInt16) (etype : Int16) (encrypted : Bytes) (salt : Option Bytes)
    (principal : PrincipalName) (realm : Str) : KeyData :=
  match salt with
  | none => { ver := 1, kvno, fields := [(etype, encrypted)] }
  | some salt =>
    if salt = saltBytes principal realm .normal then { ver := 1, kvno, fields := [(etype, encrypted)] }
    else
      let saltType := if salt = saltBytes principal realm .noRealm then 2
        else if salt = saltBytes principal realm .onlyRealm then 3 else 4
      { ver := 2, kvno, fields := [(etype, encrypted), (saltType, salt)] }

section
variable [Crypto]

def keyFromData (data : KeyData) (principal : PrincipalName) (realm : Str) (master : EncryptionKey) :
    Except StoreError KeyEntry := do
  let (etype, ciphertext) ← keyField data "MIT key-data record has no key field"
  let key ← decryptKey master etype.toInt32 ciphertext
  let salt ← keySaltFromData data principal realm
  .ok { kvno := data.kvno.toUInt32, key, salt, s2kparams := none }

def keyDataFromEntry (confounder : Bytes) (entry : PrincipalEntry) (key : KeyEntry) (master : EncryptionKey) :
    Except StoreError KeyData :=
  if 2 ^ 16 ≤ key.kvno.toNat then .error (.backend "MIT key version exceeds u16")
  else if ¬ (-2 ^ 15 ≤ key.key.keytype.toInt ∧ key.key.keytype.toInt < 2 ^ 15) then
    .error (.backend "MIT enctype exceeds i16")
  else do
    let encrypted ← encryptKey confounder master key.key
    .ok (keyDataWithSalt key.kvno.toUInt16 key.key.keytype.toInt16 encrypted key.salt entry.name entry.realm)

def reusableKeyData (old : KeyData) (key : KeyEntry) (entry : PrincipalEntry) (master : EncryptionKey) : Bool :=
  match old.fields, keySaltFromData old entry.name entry.realm with
  | (etype, ciphertext) :: _, .ok oldSalt =>
    let kvno : UInt16 := if key.kvno.toNat < 2 ^ 16 then key.kvno.toUInt16 else 65535
    if old.kvno ≠ kvno ∨ etype.toInt32 ≠ key.key.keytype ∨ oldSalt ≠ key.salt then false
    else
      match decryptKey master key.key.keytype ciphertext with
      | .ok decoded => decoded.keyBytes = key.key.keyBytes
      | .error _ => false
  | _, _ => false

def reused (remaining : List KeyData) (key : KeyEntry) (entry : PrincipalEntry) :
    Option EncryptionKey → Option KeyData
  | none => none
  | some master => remaining.find? fun old => reusableKeyData old key entry master

def keyDataFor (entry : PrincipalEntry) (oldMaster : Option EncryptionKey) (active : EncryptionKey) :
    (Nat → Bytes) → List KeyData → List KeyEntry → Except StoreError (List (KeyData × Bool))
  | _, _, [] => .ok []
  | draw, remaining, key :: keys =>
    match reused remaining key entry oldMaster with
    | some old => do
      let rest ← keyDataFor entry oldMaster active (fun i => draw (i + 1)) (remaining.erase old) keys
      .ok ((old, true) :: rest)
    | none => do
      let data ← keyDataFromEntry (draw 0) entry key active
      let rest ← keyDataFor entry oldMaster active (fun i => draw (i + 1)) remaining keys
      .ok ((data, false) :: rest)

def rewrapIf (retained : Bool) (confounder : Bytes) (data : KeyData) (old active : EncryptionKey) :
    Except StoreError KeyData :=
  if retained then rewrapKeyData confounder data old active else .ok data

def rewrapRetained (old active : EncryptionKey) :
    (Nat → Bytes) → List (KeyData × Bool) → Except StoreError (List KeyData)
  | _, [] => .ok []
  | draw, (data, retained) :: rest => do
    let data ← rewrapIf retained (draw 0) data old active
    let rest ← rewrapRetained old active (fun i => draw (i + 1)) rest
    .ok (data :: rest)

def rewrapChanged (changed : Bool) (oldMaster : Option EncryptionKey) (active : EncryptionKey)
    (draw : Nat → Bytes) (updated : List (KeyData × Bool)) : Except StoreError (List KeyData) :=
  match changed, oldMaster with
  | true, some old => rewrapRetained old active draw updated
  | _, _ => .ok (updated.map (·.1))

def updateKeys (now : UInt32) (draw : Nat → Bytes) (entry : MitEntry) (record : PrincipalRecord)
    (keys : MasterKeys) : Except StoreError (MitEntry × Bool) := do
  let (activeKvno, active) ← keys.activeAt now
  let oldMkvno ← entryMkvno entry
  let oldMaster := keys.get oldMkvno
  let updated ← keyDataFor record.entry oldMaster active draw entry.keyData record.entry.keys
  let reencrypted := updated.any fun p => !p.2
  let keyData ← rewrapChanged (reencrypted && oldMkvno ≠ activeKvno) oldMaster active draw updated
  .ok ({ entry with keyData }, reencrypted)

end

/-! ## Writing a record -/

def restampModPrinc (existing : Bytes) (seconds : UInt32) : Option Bytes → Except StoreError Bytes
  | none => .ok (Codec.u32 seconds ++ existing.drop 4)
  | some modBy =>
    if 0 ∈ modBy then .error (.backend "NUL in MIT modifier principal")
    else .ok (Codec.u32 seconds ++ modBy ++ [0])

def modPrincData (existing : Option Bytes) (seconds : UInt32) (modBy creator : Option Bytes) :
    Except StoreError Bytes :=
  match existing with
  | some existing =>
    if malformedModPrinc existing then .error (.corrupt "malformed MIT MOD_PRINC tl-data")
    else restampModPrinc existing seconds modBy
  | none =>
    match modBy <|> creator with
    | none => .error (.corrupt "new MIT record has no creator principal")
    | some creator => .ok (Codec.u32 seconds ++ creator ++ [0])

def stampOf (now : Int) (stamp : Option KerberosTime) (creator : Option Bytes) : Option KerberosTime :=
  match stamp with
  | some stamp => some stamp
  | none => if creator.isSome then some (kerberosTime now) else none

def updateModPrincipal (now : Int) (entry : MitEntry) (stamp : Option KerberosTime)
    (modBy creator : Option Bytes) : Except StoreError MitEntry :=
  match stampOf now stamp creator with
  | none => .ok entry
  | some stamp =>
    if ¬ (0 ≤ stamp.seconds ∧ stamp.seconds < 2 ^ 32) then
      .error (.backend "MIT MOD_PRINC timestamp outside u32 range")
    else do
      let bytes ← modPrincData (entry.tl modPrinc) (UInt32.ofInt stamp.seconds) modBy creator
      .ok (setTl entry modPrinc (some bytes))

def setModPrinc (entry : MitEntry) (seconds : UInt32) (modBy : Bytes) : Except StoreError MitEntry :=
  updateModPrincipal 0 entry (some (kerberosTime seconds.toNat)) (some modBy) none

def stampData : Option KerberosTime → Except StoreError (Option Bytes)
  | none => .ok none
  | some time => do
    let seconds ← timestamp (some time)
    .ok (some (Codec.u32 seconds))

def delegationData (principal : Str) : Except StoreError TlData :=
  if 0 ∈ principal.bytes then .error (.backend "NUL in constrained-delegation name")
  else .ok ⟨constrainedDelegationAcl, principal.bytes ++ [0]⟩

def updateDelegation (entry : MitEntry) (names : List Str) : Except StoreError MitEntry := do
  let items ← names.mapM delegationData
  .ok { entry with tlData := (entry.tlData.filter fun t => t.kind ≠ constrainedDelegationAcl) ++ items }

def joinNames : List Str → Except StoreError Bytes
  | [] => .ok []
  | [name] =>
    if 0 ∈ name.bytes then .error (.backend "NUL in delegation principal") else .ok name.bytes
  | name :: names =>
    if 0 ∈ name.bytes then .error (.backend "NUL in delegation principal")
    else do
      let rest ← joinNames names
      .ok (name.bytes ++ 44 :: rest)

def updateStringAttrs (entry : MitEntry) (names : List Str) : Except StoreError MitEntry :=
  if names = [] then setStringAttr entry allowedToDelegateFromAttr none
  else do
    let joined ← joinNames names
    setStringAttr entry allowedToDelegateFromAttr (some joined)

def withPolicy (osa : OsaPrincipalData) : Option Str → Except StoreError OsaPrincipalData
  | some name =>
    if 0 ∈ name.bytes then .error (.backend "NUL in MIT policy name")
    else .ok { osa with policy := some name.bytes, auxAttributes := osa.auxAttributes ||| kadm5Policy }
  | none => .ok { osa with policy := none, auxAttributes := osa.auxAttributes &&& ~~~kadm5Policy }

def withHistory (osa : OsaPrincipalData) : Option PasswordHistory → OsaPrincipalData
  | some history =>
    { osa with
      adminHistoryKvno := history.adminHistoryKvno, oldKeyNext := history.oldKeyNext
      oldKeys := history.oldKeys }
  | none => osa

def oldKadmData : Option Bytes → Except StoreError OsaPrincipalData
  | some bytes => Osa.decode bytes
  | none => .ok {}

def updateKadmData (entry : MitEntry) (policy : Option Str) (history : Option PasswordHistory) :
    Except StoreError MitEntry :=
  let old := entry.tl kadmData
  if old = none ∧ policy = none ∧ history.getD {} = {} then .ok entry
  else do
    let osa ← oldKadmData old
    let osa ← withPolicy osa policy
    let data ← Osa.encode (withHistory osa history)
    .ok (setTl entry kadmData (some data))

/-- The clock readings of a merge: for a new record's time, for the key that wraps, and for the
version recorded. -/
structure Clock where
  modified : Int
  wrapped : UInt32
  recorded : UInt32

def recordMkvno (now : UInt32) (entry : MitEntry) (keys : MasterKeys) (reencrypted : Bool) :
    Except StoreError MitEntry :=
  if reencrypted then do
    let (activeKvno, _) ← keys.activeAt now
    .ok (setTl entry mkvno (some (Codec.u16 activeKvno)))
  else do
    let _ ← entryMkvno entry
    .ok entry

def mergeFields (clock : Clock) (entry : MitEntry) (record : PrincipalRecord) (creator : Option Bytes) :
    Except StoreError MitEntry := do
  let r := record.entry
  let maxLife ← duration r.maxLife
  let maxRenewableLife ← duration r.maxRenewableLife
  let expiration ← timestamp r.expiration
  let pwExpiration ← timestamp r.pwExpiration
  let entry : MitEntry := { entry with
    principal := r.name, realm := r.realm, attributes := r.attributes
    maxLife, maxRenewableLife, expiration, pwExpiration }
  let changed ← stampData record.lastPwdChange
  let entry := setTl entry lastPwdChange changed
  let entry ← updateModPrincipal clock.modified entry record.modTime record.modBy creator
  let unlocked ← stampData r.lastAdminUnlock
  let entry := setTl entry lastAdminUnlock unlocked
  let entry ← updateDelegation entry r.allowedToDelegateTo
  let entry ← updateStringAttrs entry r.allowedToDelegateFrom
  updateKadmData entry r.policy record.passwordHistory

def mergeRecord [Crypto] (clock : Clock) (draw : Nat → Bytes) (entry : MitEntry) (record : PrincipalRecord)
    (keys : MasterKeys) (creator : Option Bytes) : Except StoreError MitEntry := do
  let entry ← mergeFields clock entry record creator
  let (entry, reencrypted) ← updateKeys clock.wrapped draw entry record keys
  recordMkvno clock.recorded entry keys reencrypted

/-! ## Reading a record -/

def attrValue (pairs : List StringAttribute) (key : Bytes) : Option Bytes :=
  (pairs.find? fun pair => pair.1 = key).map (·.2)

def authFromAttr : Option Bytes → Except StoreError (Option Str)
  | none => .ok none
  | some value =>
    match Str.ofUtf8 value with
    | some value => .ok (some value)
    | none => .error (.corrupt "require_auth attribute is not UTF-8")

def requireAuthAttr (tlData : List TlData) : Except StoreError (Option Str) := do
  let pairs ← attrPairsIn tlData
  authFromAttr (attrValue pairs requireAuthKey)

def splitComma : Bytes → List Bytes
  | [] => [[]]
  | b :: bs =>
    if b = 44 then [] :: splitComma bs
    else
      match splitComma bs with
      | [] => [[b]]
      | part :: parts => (b :: part) :: parts

def namesFromAttr : Option Bytes → Except StoreError (List Str)
  | none => .ok []
  | some value =>
    match Str.ofUtf8 value with
    | none => .error (.corrupt "krb5rs delegation attribute is not UTF-8")
    | some _ => if value = [] then .ok [] else .ok ((splitComma value).filterMap Str.ofUtf8)

def delegatedFrom (entry : MitEntry) : Except StoreError (List Str) := do
  let pairs ← attrPairs entry
  namesFromAttr (attrValue pairs allowedToDelegateFromAttr)

def modified (entry : MitEntry) : Except StoreError (Option KerberosTime × Option Bytes) := do
  let data ← modPrincipalData entry
  match data with
  | none => .ok (none, none)
  | some (time, principal) => do
    let _ ← parseName principal
    .ok (some (kerberosTime time.toNat), some principal)

def recordWithoutKeys (entry : MitEntry) : Except StoreError PrincipalRecord := do
  let allowedToDelegateFrom ← delegatedFrom entry
  let requireAuth ← requireAuthAttr entry.tlData
  let changed ← getU32Tl entry lastPwdChange
  let (modTime, modBy) ← modified entry
  let unlocked ← getU32Tl entry Krb5Rs.lastAdminUnlock
  let (policy, passwordHistory) ← policyAndHistoryFromTl entry
  let allowedToDelegateTo ← constrainedDelegationValues entry
  .ok
    { entry :=
        { name := entry.principal
          realm := entry.realm
          attributes := entry.attributes
          maxLife := fromDuration entry.maxLife
          maxRenewableLife := fromDuration entry.maxRenewableLife
          expiration := fromTimestamp entry.expiration
          pwExpiration := fromTimestamp entry.pwExpiration
          keys := []
          allowedToDelegateTo, allowedToDelegateFrom, requireAuth, policy
          securityEpoch := 0
          lastAdminUnlock := unlocked.map fun t => kerberosTime t.toNat }
      lastPwdChange := changed.map fun t => kerberosTime t.toNat
      modTime, modBy
      passwordHistory := some passwordHistory
      unlock := false }

def recordFromEntry [Crypto] (entry : MitEntry) (keys : MasterKeys) : Except StoreError PrincipalRecord := do
  let kvno ← entryMkvno entry
  match keys.get kvno with
  | none => .error (noMatchingKey kvno)
  | some master => do
    let keys ← entry.keyData.mapM fun data => keyFromData data entry.principal entry.realm master
    let record ← recordWithoutKeys entry
    .ok { record with entry := { record.entry with keys } }

end

end Krb5Rs
