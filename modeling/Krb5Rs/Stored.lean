import Krb5Rs.Tl

/-!
# Stored principals

`kdc/replication.rs`: a principal as the SQL source keeps it, with encrypted
keys and unix seconds, lowered to an MIT entry (`to_mit`) and rebuilt from one
(`from_mit`). Every write of the SQL source goes through both.
-/

namespace Krb5Rs

open Wire (Bytes)
open Utf8 (Str)

structure StoredKey where
  kvno : UInt32
  enctype : Int32
  mkvno : UInt32
  encKey : Bytes
  salt : Option Bytes
  s2kparams : Option Bytes
deriving Repr, DecidableEq

/-- The seconds a date can be made of. -/
class Calendar where
  representable : Int → Bool

/-- `kerberos_time`: the epoch when there is no such date. -/
def dateOf [Calendar] (seconds : Int) : KerberosTime :=
  if Calendar.representable seconds then kerberosTime seconds else kerberosTime 0

section
variable [Alphabet]

structure StoredPrincipal where
  name : PrincipalName
  realm : Str
  attributes : UInt32 := 0
  maxLife : Option UInt64 := none
  maxRenewableLife : Option UInt64 := none
  expiration : Option Int64 := none
  pwExpiration : Option Int64 := none
  lastPwdChange : Option Int64 := none
  modTime : Option Int64 := none
  keys : List StoredKey := []
  allowedToDelegateTo : List Str := []
  allowedToDelegateFrom : List Str := []
  policy : Option Str := none
  securityEpoch : UInt64 := 0
  lastAdminUnlock : Option Int64 := none
  tlData : List TlData := []
deriving DecidableEq

namespace StoredPrincipal

def mitU32 (v : Option Int64) : UInt32 :=
  match v with
  | none => 0
  | some v => if 0 ≤ v.toInt ∧ v.toInt < 2 ^ 32 then UInt32.ofInt v.toInt else 0

def mitLife (v : Option UInt64) : UInt32 :=
  match v with
  | none => 0
  | some v => if v.toNat < 2 ^ 32 then UInt32.ofNat v.toNat else 0

def withMkvno (tlData : List TlData) : List StoredKey → Except StoreError (List TlData)
  | [] => .ok tlData
  | key :: _ =>
    if 2 ^ 16 ≤ key.mkvno.toNat then .error (.corrupt "master key version out of range")
    else if Krb5Rs.mkvno ∈ tlData.map (·.kind) then
      .ok (Tagged.update Krb5Rs.mkvno (Codec.u16 key.mkvno.toUInt16) tlData)
    else if key.mkvno ≠ 1 then .ok (tlData ++ [⟨Krb5Rs.mkvno, Codec.u16 key.mkvno.toUInt16⟩])
    else .ok tlData

def keyDataOf (sp : StoredPrincipal) (key : StoredKey) : Except StoreError KeyData :=
  if 2 ^ 16 ≤ key.kvno.toNat then .error (.corrupt "kvno exceeds MIT's 16 bits")
  else if ¬ (-2 ^ 15 ≤ key.enctype.toInt ∧ key.enctype.toInt < 2 ^ 15) then .error (.corrupt "enctype exceeds i16")
  else .ok (keyDataWithSalt key.kvno.toUInt16 key.enctype.toInt16 key.encKey key.salt sp.name sp.realm)

def toRaw (sp : StoredPrincipal) : Except StoreError MitEntry := do
  let tlData ← withMkvno sp.tlData sp.keys
  let keyData ← sp.keys.mapM sp.keyDataOf
  .ok
    { principal := sp.name
      realm := sp.realm
      attributes := sp.attributes
      maxLife := mitLife sp.maxLife
      maxRenewableLife := mitLife sp.maxRenewableLife
      expiration := mitU32 sp.expiration
      pwExpiration := mitU32 sp.pwExpiration
      lastSuccess := 0
      lastFailed := 0
      failAuthCount := 0
      tlData, keyData }

/-- A key rebuilt from key data. Of the old keys, the first of its version and enctype gives
the parameters. -/
def storedKey (old : List StoredKey) (version : UInt16) (entry : MitEntry) (data : KeyData) :
    Except StoreError StoredKey := do
  let field ← keyField data "key-data record has no key field"
  let salt ← keySaltFromData data entry.principal entry.realm
  .ok
    { kvno := data.kvno.toUInt32
      enctype := field.1.toInt32
      mkvno := version.toUInt32
      encKey := field.2
      salt
      s2kparams :=
        (old.find? fun k => k.kvno = data.kvno.toUInt32 ∧ k.enctype = field.1.toInt32).bind (·.s2kparams) }

/-- `apply_raw`'s keys; what else it sets, `from_mit` sets again. -/
def appliedKeys (old : List StoredKey) (entry : MitEntry) : Except StoreError (List StoredKey) := do
  let version ← entryMkvno entry
  entry.keyData.mapM (storedKey old version entry)

def dbCreation : Bytes := ascii "db_creation"

def creationName (realm : Str) : Bytes := appendComponent dbCreation ++ 64 :: appendComponent realm.bytes

def withModifier (sp : StoredPrincipal) (tlData : List TlData) : List TlData :=
  if modPrinc ∈ tlData.map (·.kind) then tlData
  else tlData ++ [⟨modPrinc, Codec.u32 (mitU32 sp.modTime) ++ creationName sp.realm ++ [0]⟩]

section
variable [Calendar]

def keylessEntry (sp : StoredPrincipal) : Except StoreError PrincipalEntry := do
  let requireAuth ← requireAuthAttr sp.tlData
  .ok
    { name := sp.name
      realm := sp.realm
      attributes := sp.attributes
      maxLife := sp.maxLife.map fun v => ⟨v.toNat, 0⟩
      maxRenewableLife := sp.maxRenewableLife.map fun v => ⟨v.toNat, 0⟩
      expiration := sp.expiration.map fun v => dateOf v.toInt
      pwExpiration := sp.pwExpiration.map fun v => dateOf v.toInt
      keys := []
      allowedToDelegateTo := sp.allowedToDelegateTo
      allowedToDelegateFrom := sp.allowedToDelegateFrom
      requireAuth
      policy := sp.policy
      securityEpoch := sp.securityEpoch
      lastAdminUnlock := sp.lastAdminUnlock.map fun v => dateOf v.toInt }

def keylessRecord (sp : StoredPrincipal) : Except StoreError PrincipalRecord := do
  let entry ← sp.keylessEntry
  .ok
    { entry
      lastPwdChange := sp.lastPwdChange.map fun v => dateOf v.toInt
      modTime := sp.modTime.map fun v => dateOf v.toInt
      modBy := none
      passwordHistory := none
      unlock := false }

def toMit [Crypto] (clock : Clock) (sp : StoredPrincipal) (keys : MasterKeys) : Except StoreError MitEntry := do
  let raw ← sp.toRaw
  let record ← sp.keylessRecord
  let entry := { raw with tlData := sp.withModifier raw.tlData, keyData := [] }
  let merged ← mergeRecord clock (fun _ => []) entry record keys none
  .ok { merged with keyData := raw.keyData }

end

def secondsOf (time : KerberosTime) : Int64 := Int64.ofInt time.seconds

/-- The TL data that a field of the principal holds. -/
def fieldKinds : List UInt16 := [Krb5Rs.lastPwdChange, Krb5Rs.lastAdminUnlock, constrainedDelegationAcl]

def unmodelled (tlData : List TlData) : List TlData := tlData.filter fun t => t.kind ∉ fieldKinds

def fromMit (entry : MitEntry) (previous : Option StoredPrincipal) : Except StoreError StoredPrincipal := do
  let record ← recordWithoutKeys entry
  -- the principal is made without keys, so `apply_raw` finds no old ones
  let keys ← appliedKeys [] entry
  .ok
    { name := record.entry.name
      realm := record.entry.realm
      attributes := record.entry.attributes
      maxLife := record.entry.maxLife.map fun d => UInt64.ofNat d.secs
      maxRenewableLife := record.entry.maxRenewableLife.map fun d => UInt64.ofNat d.secs
      expiration := record.entry.expiration.map secondsOf
      pwExpiration := record.entry.pwExpiration.map secondsOf
      lastPwdChange := record.lastPwdChange.map secondsOf
      modTime := record.modTime.map secondsOf
      keys
      allowedToDelegateTo := record.entry.allowedToDelegateTo
      allowedToDelegateFrom := record.entry.allowedToDelegateFrom
      policy := record.entry.policy
      securityEpoch := (previous.map (·.securityEpoch)).getD 0
      lastAdminUnlock := record.entry.lastAdminUnlock.map secondsOf
      tlData := unmodelled entry.tlData }

end StoredPrincipal

end

end Krb5Rs
