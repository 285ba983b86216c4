import Krb5Rs.Scan
import Krb5Rs.Stored

/-!
# Replicated data

`kdc/replication.rs`: the versions of replicated rows, the changes a replica is
sent, and how names and TL data are written into a database column.
-/

namespace Krb5Rs

open Wire (Bytes Reader)
open Utf8 (Str)

/-! ## Versions -/

structure ReplicationTs where
  wallNanos : Int
  logical : Nat
deriving Repr, DecidableEq

namespace ReplicationTs

instance : LE ReplicationTs :=
  ⟨fun a b => a.wallNanos < b.wallNanos ∨ a.wallNanos = b.wallNanos ∧ a.logical ≤ b.logical⟩

instance : LT ReplicationTs :=
  ⟨fun a b => a.wallNanos < b.wallNanos ∨ a.wallNanos = b.wallNanos ∧ a.logical < b.logical⟩

variable {a b : ReplicationTs}

theorem le_iff :
    a ≤ b ↔ a.wallNanos < b.wallNanos ∨ a.wallNanos = b.wallNanos ∧ a.logical ≤ b.logical := Iff.rfl

theorem lt_iff :
    a < b ↔ a.wallNanos < b.wallNanos ∨ a.wallNanos = b.wallNanos ∧ a.logical < b.logical := Iff.rfl

instance (a b : ReplicationTs) : Decidable (a ≤ b) :=
  inferInstanceAs (Decidable (a.wallNanos < b.wallNanos ∨ a.wallNanos = b.wallNanos ∧ a.logical ≤ b.logical))

instance (a b : ReplicationTs) : Decidable (a < b) :=
  inferInstanceAs (Decidable (a.wallNanos < b.wallNanos ∨ a.wallNanos = b.wallNanos ∧ a.logical < b.logical))

theorem eq_of_le_of_le (hab : a ≤ b) (hba : b ≤ a) : a = b := by
  obtain ⟨wa, la⟩ := a
  obtain ⟨wb, lb⟩ := b
  simp only [le_iff] at hab hba
  have hw : wa = wb := by omega
  have hl : la = lb := by omega
  rw [hw, hl]

instance : LinearOrder ReplicationTs where
  le_refl a := le_iff.mpr (by omega)
  le_trans a b c hab hbc := by
    simp only [le_iff] at *
    omega
  lt_iff_le_not_ge a b := by
    simp only [le_iff, lt_iff]
    omega
  le_antisymm a b := eq_of_le_of_le
  le_total a b := by
    simp only [le_iff]
    omega
  toDecidableLE := inferInstance
  toDecidableEq := inferInstance
  toDecidableLT := inferInstance

/-- `wall.logical`. -/
def display (ts : ReplicationTs) : Bytes := Scan.intText ts.wallNanos ++ 46 :: Scan.zeroPad 10 ts.logical

/-- `str::parse::<i64>`, which skips no white space. -/
def parseI64 (s : Bytes) : Option Int :=
  match Scan.num s with
  | (some v, []) => if Scan.skip s = s then some v else none
  | _ => none

/-- The error is the text. -/
def fromStr (s : Bytes) : Except Bytes ReplicationTs :=
  let logical := (s.dropWhile (· ≠ 46)).drop 1
  match parseI64 (s.takeWhile (· ≠ 46)) with
  | none => .error s
  | some wallNanos =>
    if 10 < logical.length ∨ ¬ logical.all Scan.isDigit then .error s
    else
      let n := Scan.value (logical ++ List.replicate (10 - logical.length) 48)
      if n < 2 ^ 32 then .ok ⟨wallNanos, n⟩ else .error s

end ReplicationTs

/-! ## Columns -/

/-- TL data as MIT's `put_tl_data` lays it out, no value when there is none. -/
def tlColumnItem (message : String) (t : TlData) : Except StoreError Bytes :=
  if t.data.length < 2 ^ 16 then .ok (Codec.u16 t.kind ++ Codec.u16 (UInt16.ofNat t.data.length) ++ t.data)
  else .error (.rejected message)

def tlColumn (message : String) (tl : List TlData) : Except StoreError (Option Bytes) :=
  if tl = [] then .ok none
  else if 2 ^ 16 ≤ tl.length then .error (.rejected message)
  else do
    let items ← Wire.writeAll (tlColumnItem message) tl
    .ok (some (Codec.u16 (UInt16.ofNat tl.length) ++ items))

def columnU16 (message : String) : Reader StoreError UInt16 := do
  let bytes ← Wire.take (.corrupt message) 2
  pure (UInt16.ofNat (Wire.ofLe bytes))

def columnTl (message : String) : Reader StoreError TlData := do
  let kind ← columnU16 message
  let len ← columnU16 message
  let data ← Wire.take (.corrupt message) len.toNat
  pure ⟨kind, data⟩

def columnTls (message : String) : Reader StoreError (List TlData) := do
  let count ← columnU16 message
  Wire.times (columnTl message) count.toNat

def tlFromColumn (message : String) (b : Option Bytes) : Except StoreError (List TlData) :=
  if b.getD [] = [] then .ok []
  else do
    let read ← columnTls message (b.getD [])
    if read.2 = [] then .ok read.1 else .error (.corrupt message)

def encodeTlData : List TlData → Except StoreError (Option Bytes) := tlColumn "principal tl-data too large"

def decodeTlData : Option Bytes → Except StoreError (List TlData) := tlFromColumn "truncated principal tl-data"

def policyTlData : List TlData → Except StoreError (Option Bytes) := tlColumn "policy tl-data too large"

def policyTlDataFrom : Option Bytes → Except StoreError (List TlData) := tlFromColumn "truncated policy tl-data"

def escapeKeyByte (b : UInt8) : Bytes := if b = 92 ∨ b = 47 then [92, b] else [b]

def onFirst (b : UInt8) : List Bytes → List Bytes
  | [] => [[b]]
  | part :: parts => (b :: part) :: parts

def keyParts : Bytes → Except StoreError (List Bytes)
  | [] => .ok [[]]
  | b :: bs =>
    if b = 92 then
      match bs with
      | [] => .error (.corrupt "dangling escape in a principal key")
      | c :: bs => (keyParts bs).map (onFirst c)
    else if b = 47 then (keyParts bs).map ([] :: ·)
    else (keyParts bs).map (onFirst b)

section
variable [Alphabet]

def keyComponent (c : GeneralString) : Except StoreError Bytes :=
  if Utf8.valid c.bytes then .ok (c.bytes.flatMap escapeKeyByte)
  else .error (.conflict "principal name component is not UTF-8")

def encodePrincipalKey (name : PrincipalName) : Except StoreError Bytes :=
  (name.nameString.mapM keyComponent).map (List.intercalate [47])

def keyString (part : Bytes) : Except StoreError GeneralString :=
  match GeneralString.fromBytes part with
  | some s => .ok s
  | none => .error (.corrupt "principal key is not a GeneralString")

def decodePrincipalKey (key : Bytes) (nameType : Int32) : Except StoreError PrincipalName := do
  let parts ← keyParts key
  let nameString ← parts.mapM keyString
  .ok ⟨nameType, nameString⟩

/-! ## Changes -/

omit [Alphabet] in
structure StoredPolicy extends MitPolicy where
  securityEpoch : UInt64
deriving DecidableEq

structure LockoutRecord where
  realm : Str
  name : PrincipalName
  lockedAt : Int64
  unlockAt : Option Int64
  sourceKdc : Str
deriving DecidableEq

inductive Change
  | upsertPrincipal (principal : StoredPrincipal) (version : ReplicationTs)
  | deletePrincipal (realm : Str) (name : PrincipalName) (version : ReplicationTs)
  | upsertPolicy (policy : StoredPolicy) (version : ReplicationTs)
  | deletePolicy (name : Str) (version : ReplicationTs)
  | upsertLockout (record : LockoutRecord) (version : ReplicationTs)
  | deleteLockout (realm : Str) (name : PrincipalName) (version : ReplicationTs)

end

end Krb5Rs
