import Krb5Rs.MitName
import Krb5Rs.Tagged

/-!
# MIT database entries

The principal and policy records of `kdb/mit/codec.rs`, and their klmdb encodings
`MitEntry::encode` and `MitPolicy::encode`.
-/

namespace Krb5Rs

open Wire (Bytes)
open Utf8 (Str)

abbrev TlData := Tagged UInt16 Bytes

def lastPwdChange : UInt16 := 0x0001
def modPrinc : UInt16 := 0x0002
def kadmData : UInt16 := 0x0003
def mkvno : UInt16 := 0x0008
def actkvno : UInt16 := 0x0009
def mkeyAux : UInt16 := 0x000a
def stringAttrs : UInt16 := 0x000b

structure KeyData where
  ver : UInt16
  kvno : UInt16
  fields : List (Int16 × Bytes)
deriving Repr, DecidableEq

structure MitEntry [Alphabet] where
  principal : PrincipalName
  realm : Str
  attributes : UInt32 := 0
  maxLife : UInt32 := 0
  maxRenewableLife : UInt32 := 0
  expiration : UInt32 := 0
  pwExpiration : UInt32 := 0
  lastSuccess : UInt32 := 0
  lastFailed : UInt32 := 0
  failAuthCount : UInt32 := 0
  tlData : List TlData := []
  keyData : List KeyData := []
deriving DecidableEq

structure MitPolicy where
  name : Str
  pwMinLife : UInt32 := 0
  pwMaxLife : UInt32 := 0
  pwMinLength : UInt32 := 0
  pwMinClasses : UInt32 := 0
  pwHistoryNum : UInt32 := 0
  pwMaxFail : UInt32 := 0
  pwFailcntInterval : UInt32 := 0
  pwLockoutDuration : UInt32 := 0
  attributes : UInt32 := 0
  maxLife : UInt32 := 0
  maxRenewableLife : UInt32 := 0
  allowedKeysalts : Option Str := none
  tlData : List TlData := []
deriving DecidableEq

namespace Codec

def u16 (v : UInt16) : Bytes := Wire.le 2 v.toNat

def u32 (v : UInt32) : Bytes := Wire.le 4 v.toNat

@[simp] theorem u16_length (v : UInt16) : (u16 v).length = 2 := Wire.le_length 2 _

@[simp] theorem u32_length (v : UInt32) : (u32 v).length = 4 := Wire.le_length 4 _

theorem ofLe_u16 (v : UInt16) : Wire.ofLe (u16 v) = v.toNat := Wire.ofLe_le 2 _ v.toNat_lt

theorem ofLe_u32 (v : UInt32) : Wire.ofLe (u32 v) = v.toNat := Wire.ofLe_le 4 _ v.toNat_lt

def len16 (n : Nat) (message : String) : Except StoreError UInt16 :=
  if n < 2 ^ 16 then .ok (UInt16.ofNat n) else .error (.corrupt message)

def len32 (n : Nat) (message : String) : Except StoreError UInt32 :=
  if n < 2 ^ 32 then .ok (UInt32.ofNat n) else .error (.corrupt message)

def tlItem (item : TlData) : Except StoreError Bytes := do
  let len ← len16 item.data.length "MIT tl-data exceeds u16 length"
  .ok (u16 item.kind ++ u16 len ++ item.data)

def tlData (items : List TlData) : Except StoreError Bytes :=
  (items.mapM tlItem).map List.flatten

def keyField (field : Int16 × Bytes) : Except StoreError Bytes := do
  let len ← len16 field.2.length "MIT key-data field exceeds u16 length"
  .ok (u16 field.1.toUInt16 ++ u16 len ++ field.2)

def keyData (key : KeyData) : Except StoreError Bytes :=
  if ¬ (1 ≤ key.ver.toNat ∧ key.ver.toNat ≤ 2) ∨ key.ver.toNat ≠ key.fields.length ∨
      2 < key.fields.length then
    .error (.corrupt "MIT key-data version does not match its fields")
  else do
    let fields ← key.fields.mapM keyField
    .ok (u16 key.ver ++ u16 key.kvno ++ fields.flatten)

end Codec

def MitEntry.encode [Alphabet] (e : MitEntry) : Except StoreError (Bytes × Bytes) := do
  let tlCount ← Codec.len16 e.tlData.length "too many MIT tl-data items"
  let keyCount ← Codec.len16 e.keyData.length "too many MIT key-data items"
  let tl ← Codec.tlData e.tlData
  let keys ← e.keyData.mapM Codec.keyData
  .ok (unparseName e.principal e.realm,
    Codec.u32 e.attributes ++ Codec.u32 e.maxLife ++ Codec.u32 e.maxRenewableLife ++
      Codec.u32 e.expiration ++ Codec.u32 e.pwExpiration ++ Codec.u16 tlCount ++
      Codec.u16 keyCount ++ tl ++ keys.flatten)

namespace MitPolicy

def words (p : MitPolicy) : List UInt32 :=
  [p.pwMinLife, p.pwMaxLife, p.pwMinLength, p.pwMinClasses, p.pwHistoryNum, p.pwMaxFail,
    p.pwFailcntInterval, p.pwLockoutDuration, p.attributes, p.maxLife, p.maxRenewableLife]

def keysalts (p : MitPolicy) : Bytes := (p.allowedKeysalts.map (·.bytes)).getD []

def encode (p : MitPolicy) : Except StoreError Bytes := do
  let keysaltLen ← Codec.len32 p.keysalts.length "MIT allowed-keysalts exceeds u32 length"
  let tlCount ← Codec.len16 p.tlData.length "too many MIT policy tl-data items"
  let tl ← Codec.tlData p.tlData
  .ok (p.words.flatMap Codec.u32 ++ Codec.u32 keysaltLen ++ p.keysalts ++ Codec.u16 tlCount ++ tl)

end MitPolicy

end Krb5Rs
