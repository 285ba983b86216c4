import Krb5Rs.MitEntry

/-!
# Reading klmdb records

`MitEntry::decode` and `MitPolicy::decode` of `kdb/mit/codec.rs`: the name is
read from the database key, the rest from the value. The lockout fields of a
principal are kept elsewhere.
-/

namespace Krb5Rs

open Wire (Bytes Reader)
open Utf8 (Str)

namespace Codec

def take (n : Nat) : Reader StoreError Bytes := Wire.take (.corrupt "truncated MIT klmdb record") n

def getU16 : Reader StoreError UInt16 := do
  let bytes ← take 2
  pure (UInt16.ofNat (Wire.ofLe bytes))

def getU32 : Reader StoreError UInt32 := do
  let bytes ← take 4
  pure (UInt32.ofNat (Wire.ofLe bytes))

def getTl : Reader StoreError TlData := do
  let kind ← getU16
  let len ← getU16
  let data ← take len.toNat
  pure ⟨kind, data⟩

def getField : Reader StoreError (Int16 × Bytes) := do
  let kind ← getU16
  let len ← getU16
  let data ← take len.toNat
  pure (kind.toInt16, data)

def getFields (ver kvno : UInt16) : Reader StoreError KeyData :=
  if 1 ≤ ver.toNat ∧ ver.toNat ≤ 2 then do
    let fields ← Wire.times getField ver.toNat
    pure { ver, kvno, fields }
  else Wire.fail (.corrupt ("invalid MIT key-data version " ++ toString ver.toNat))

def getKey : Reader StoreError KeyData := do
  let ver ← getU16
  let kvno ← getU16
  getFields ver kvno

def counted {α : Type} (what : String) (item : Reader StoreError α) (count : UInt16) : Reader StoreError (List α) := do
  let left ← Wire.remaining
  if left / 4 < count.toNat then Wire.fail (.corrupt ("MIT " ++ what ++ " count exceeds record length"))
  else Wire.times item count.toNat

def finish {α : Type} (read : α × Bytes) : Except StoreError α :=
  if read.2 = [] then .ok read.1 else .error (.corrupt "trailing bytes in MIT klmdb record")

section
variable [Alphabet]

def getEntry (principal : PrincipalName) (realm : Str) : Reader StoreError MitEntry := do
  let attributes ← getU32
  let maxLife ← getU32
  let maxRenewableLife ← getU32
  let expiration ← getU32
  let pwExpiration ← getU32
  let tlCount ← getU16
  let keyCount ← getU16
  let tlData ← counted "tl-data" getTl tlCount
  let keyData ← counted "key-data" getKey keyCount
  pure
    { principal, realm, attributes, maxLife, maxRenewableLife, expiration, pwExpiration
      lastSuccess := 0
      lastFailed := 0
      failAuthCount := 0
      tlData, keyData }

end

def keysaltText (bytes : Bytes) : Reader StoreError (Option Str) :=
  match Str.ofUtf8 bytes with
  | some text => pure (some text)
  | none => Wire.fail (.corrupt "MIT allowed-keysalts is not UTF-8")

/-- An empty list is read as none. -/
def getKeysalts (len : UInt32) : Reader StoreError (Option Str) :=
  if len = 0 then pure none
  else do
    let bytes ← take len.toNat
    keysaltText bytes

def getPolicy (name : Str) : Reader StoreError MitPolicy := do
  let pwMinLife ← getU32
  let pwMaxLife ← getU32
  let pwMinLength ← getU32
  let pwMinClasses ← getU32
  let pwHistoryNum ← getU32
  let pwMaxFail ← getU32
  let pwFailcntInterval ← getU32
  let pwLockoutDuration ← getU32
  let attributes ← getU32
  let maxLife ← getU32
  let maxRenewableLife ← getU32
  let keysaltLen ← getU32
  let allowedKeysalts ← getKeysalts keysaltLen
  let tlCount ← getU16
  let tlData ← counted "tl-data" getTl tlCount
  pure
    { name, pwMinLife, pwMaxLife, pwMinLength, pwMinClasses, pwHistoryNum, pwMaxFail, pwFailcntInterval
      pwLockoutDuration, attributes, maxLife, maxRenewableLife, allowedKeysalts, tlData }

end Codec

def MitEntry.decode [Alphabet] (key value : Bytes) : Except StoreError MitEntry := do
  let (principal, realm) ← parseName key
  let read ← Codec.getEntry principal realm value
  Codec.finish read

def MitPolicy.decode (name value : Bytes) : Except StoreError MitPolicy :=
  match Str.ofUtf8 name with
  | none => .error (.corrupt "MIT policy name is not UTF-8")
  | some name => do
    let read ← Codec.getPolicy name value
    Codec.finish read

end Krb5Rs
