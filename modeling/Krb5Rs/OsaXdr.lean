import Krb5Rs.MitEntry

/-!
# The kadm5 data of an entry

XDR of `KRB5_TL_KADM_DATA` (`kdb/mit/xdr.rs`). As every item is a multiple of
four bytes long, the writer's padding of its whole buffer is the padding of
each item.
-/

namespace Krb5Rs

open Wire (Bytes Reader take fail times writeAll)

structure OsaPrincipalData where
  policy : Option Bytes := none
  auxAttributes : Int32 := 0
  oldKeyNext : UInt32 := 0
  adminHistoryKvno : UInt32 := 0
  oldKeys : List (List KeyData) := []
deriving Repr, DecidableEq

namespace Osa

def osaAdbPrincVersion1 : UInt32 := 0x12345c01

def padding (n : Nat) : Nat := (4 - n % 4) % 4

/-! ## Writing -/

def writeU32 (v : UInt32) : Bytes := Wire.be 4 v.toNat

def writeLen (n : Nat) (message : String) : Except StoreError Bytes :=
  if n < 2 ^ 32 then .ok (Wire.be 4 n) else .error (.corrupt message)

def padded (v : Bytes) : Bytes := v ++ List.replicate (padding v.length) 0

def writeNullstring : Option Bytes → Except StoreError Bytes
  | none => .ok (writeU32 0)
  | some value =>
    if 0 ∈ value then .error (.corrupt "NUL in KADM_DATA policy name")
    else do
      let len ← writeLen (value.length + 1) "KADM_DATA policy name too long"
      .ok (len ++ padded (value ++ [0]))

def writeXdrBytes (value : Bytes) : Except StoreError Bytes := do
  let len ← writeLen value.length "XDR byte string too long"
  .ok (len ++ padded value)

def len16 (n : Nat) (message : String) : Except StoreError UInt32 :=
  if n < 2 ^ 16 then .ok (UInt32.ofNat n) else .error (.corrupt message)

/-- The second field; a missing one is written as `(0, [])`. -/
def secondField (fields : List (Int16 × Bytes)) : Int16 × Bytes := fields.getD 1 (0, [])

def writeHistoryKey (key : KeyData) : Except StoreError Bytes :=
  match key.fields with
  | [] => .error (.corrupt "invalid key-data version in KADM_DATA history")
  | first :: _ =>
    if ¬ (1 ≤ key.ver ∧ key.ver ≤ 2) ∨ 2 < key.fields.length then
      .error (.corrupt "invalid key-data version in KADM_DATA history")
    else do
      let second := secondField key.fields
      let len0 ← len16 first.2.length "history key field too large"
      let len1 ← len16 second.2.length "history salt field too large"
      let data0 ← writeXdrBytes first.2
      let data1 ← writeXdrBytes second.2
      .ok (writeU32 key.ver.toUInt32 ++ (writeU32 key.kvno.toUInt32 ++ (writeU32 first.1.toInt32.toUInt32 ++
        (writeU32 second.1.toInt32.toUInt32 ++ (writeU32 len0 ++ (writeU32 len1 ++ (data0 ++ data1)))))))

def writeHistoryEntry (keys : List KeyData) : Except StoreError Bytes := do
  let len ← writeLen keys.length "too many KADM_DATA historical keys"
  let items ← writeAll writeHistoryKey keys
  .ok (len ++ items)

def encode (osa : OsaPrincipalData) : Except StoreError Bytes := do
  let policy ← writeNullstring osa.policy
  let len ← writeLen osa.oldKeys.length "too many KADM_DATA password-history entries"
  let history ← writeAll writeHistoryEntry osa.oldKeys
  .ok (writeU32 osaAdbPrincVersion1 ++ (policy ++ (writeU32 osa.auxAttributes.toUInt32 ++
    (writeU32 osa.oldKeyNext ++ (writeU32 osa.adminHistoryKvno ++ (len ++ history))))))

/-! ## Reading -/

abbrev XdrReader (α : Type) := Reader StoreError α

def truncated : StoreError := .corrupt "truncated KADM_DATA XDR"

def u32 : XdrReader UInt32 := do
  let b ← take truncated 4
  pure (UInt32.ofNat (Wire.ofBe b))

def i32 : XdrReader Int32 := do
  let v ← u32
  pure v.toInt32

def xdrBytes : XdrReader Bytes := do
  let len ← u32
  let bytes ← take truncated len.toNat
  let _ ← take truncated (padding len.toNat)
  pure bytes

def nullstring : XdrReader (Option Bytes) := do
  let bytes ← xdrBytes
  if bytes = [] then pure none
  else if bytes.getLast? ≠ some 0 ∨ 0 ∈ bytes.dropLast then
    fail (.corrupt "malformed XDR nullstring in KADM_DATA")
  else pure (some bytes.dropLast)

def inI16 (v : Int32) : Prop := -2 ^ 15 ≤ v.toInt ∧ v.toInt < 2 ^ 15

instance (v : Int32) : Decidable (inI16 v) := inferInstanceAs (Decidable (_ ∧ _))

def historyKey : XdrReader KeyData := do
  let ver ← i32
  if ¬ (1 ≤ ver.toInt ∧ ver.toInt ≤ 2) then fail (.corrupt "invalid XDR key-data version in KADM_DATA")
  else do
    let kvno ← u32
    let kind0 ← i32
    let kind1 ← i32
    let len0 ← u32
    let len1 ← u32
    let bytes0 ← xdrBytes
    let bytes1 ← xdrBytes
    if 2 ^ 16 ≤ kvno.toNat ∨ ¬ inI16 kind0 ∨ ¬ inI16 kind1 ∨ 2 ^ 16 ≤ len0.toNat ∨ 2 ^ 16 ≤ len1.toNat ∨
        bytes0.length ≠ len0.toNat ∨ bytes1.length ≠ len1.toNat then
      fail (.corrupt "XDR key-data length mismatch in KADM_DATA")
    else
      let fields := (kind0.toInt16, bytes0) ::
        if ver = 2 ∨ kind1 ≠ 0 ∨ bytes1 ≠ [] then [(kind1.toInt16, bytes1)] else []
      pure { ver := ver.toUInt32.toUInt16, kvno := kvno.toUInt16, fields }

def historyEntry : XdrReader (List KeyData) := do
  let count ← u32
  if 1000000 < count.toNat then fail (.corrupt "unreasonable KADM_DATA key-history length")
  else times historyKey count.toNat

def history : XdrReader (List (List KeyData)) := do
  let entries ← u32
  if 1000000 < entries.toNat then fail (.corrupt "unreasonable KADM_DATA history length")
  else times historyEntry entries.toNat

def principalData : XdrReader OsaPrincipalData := do
  let version ← u32
  if version ≠ osaAdbPrincVersion1 then
    fail (.corrupt ("unsupported OSA principal-data version " ++ toString version.toNat))
  else do
    let policy ← nullstring
    let auxAttributes ← i32
    let oldKeyNext ← u32
    let adminHistoryKvno ← u32
    let oldKeys ← history
    pure { policy, auxAttributes, oldKeyNext, adminHistoryKvno, oldKeys }

def decode (bytes : Bytes) : Except StoreError OsaPrincipalData := do
  let (osa, rest) ← principalData bytes
  if rest ≠ [] then .error (.corrupt "trailing bytes in KADM_DATA XDR") else .ok osa

end Osa

end Krb5Rs
