import Krb5Rs.Replication
import Mathlib.Data.List.Sort

/-!
# Columns of principals, policies and lockouts

What the SQL databases keep of a principal, a policy and a lockout, and how the
numbers of their Rust types go into `INT8` columns and come back.
-/

namespace Krb5Rs

open Wire (Bytes)
open Utf8 (Str)

namespace Sql

def ofU32 (v : UInt32) : Int64 := Int64.ofInt v.toNat

def ofU64 (n : UInt64) : Except StoreError Int64 :=
  if n.toNat < 2 ^ 63 then .ok (Int64.ofInt n.toNat) else .error (.conflict "value out of range")

/-- `i64::try_from(n).unwrap_or(i64::MAX)`. -/
def saturate (n : UInt64) : Int64 := Int64.ofInt (min n.toNat (2 ^ 63 - 1) : Nat)

def toU32 (message : String) (v : Int64) : Except StoreError UInt32 :=
  if 0 ≤ v.toInt ∧ v.toInt < 2 ^ 32 then .ok (UInt32.ofNat v.toInt.toNat) else .error (.corrupt message)

def toI32 (message : String) (v : Int64) : Except StoreError Int32 :=
  if -2 ^ 31 ≤ v.toInt ∧ v.toInt < 2 ^ 31 then .ok (Int32.ofInt v.toInt) else .error (.corrupt message)

def toU64 (message : String) (v : Int64) : Except StoreError UInt64 :=
  if 0 ≤ v.toInt then .ok (UInt64.ofNat v.toInt.toNat) else .error (.corrupt message)

def optional {α β : Type} (f : α → Except StoreError β) : Option α → Except StoreError (Option β)
  | none => .ok none
  | some a => (f a).map some

def joinList (list : List Str) : Bytes := List.intercalate [10] (list.map (·.bytes))

def splitList (s : Bytes) : List Str := if s = [] then [] else (s.splitOn 10).filterMap Str.ofUtf8

end Sql

/-- A principal's columns; `δ` is what a list of names is kept in. -/
structure PrincipalCols (δ : Type) where
  nameType : Int64
  attributes : Int64
  maxLife : Option Int64
  maxRenewableLife : Option Int64
  expiration : Option Int64
  pwExpiration : Option Int64
  lastPwdChange : Option Int64
  modTime : Option Int64
  policy : Option Str
  securityEpoch : Int64
  lastAdminUnlock : Option Int64
  delegateTo : δ
  delegateFrom : δ
  tlData : Option Bytes
deriving DecidableEq

structure KeyCols where
  kvno : Int64
  enctype : Int64
  mkvno : Int64
  encKey : Bytes
  salt : Option Bytes
  s2kparams : Option Bytes
deriving DecidableEq

structure PolicyCols where
  pwMinLife : Int64
  pwMaxLife : Int64
  pwMinLength : Int64
  pwMinClasses : Int64
  pwHistoryNum : Int64
  pwMaxFail : Int64
  pwFailcntInterval : Int64
  pwLockoutDuration : Int64
  attributes : Int64
  maxLife : Int64
  maxRenewableLife : Int64
  allowedKeysalts : Option Str
  securityEpoch : Int64
  tlData : Option Bytes
deriving DecidableEq

structure LockoutCols where
  nameType : Int64
  lockedAt : Int64
  unlockAt : Option Int64
  sourceKdc : Bytes
deriving DecidableEq

def KeyCols.index (k : KeyCols) : Int64 × Int64 := (k.kvno, k.enctype)

def StoredKey.cols (k : StoredKey) : KeyCols where
  kvno := Sql.ofU32 k.kvno
  enctype := k.enctype.toInt64
  mkvno := Sql.ofU32 k.mkvno
  encKey := k.encKey
  salt := k.salt
  s2kparams := k.s2kparams

/-- `ORDER BY kvno DESC, enctype ASC`. -/
def newestFirst (keys : List KeyCols) : List KeyCols :=
  keys.insertionSort fun a b => b.kvno < a.kvno ∨ a.kvno = b.kvno ∧ a.enctype ≤ b.enctype

/-- The parameters are the texts for a version out of range. -/
def keyFromCols (kvnoError mkvnoError : String) (k : KeyCols) : Except StoreError StoredKey := do
  let kvno ← Sql.toU32 kvnoError k.kvno
  let enctype ← Sql.toI32 "enctype" k.enctype
  let mkvno ← Sql.toU32 mkvnoError k.mkvno
  .ok { kvno, enctype, mkvno, encKey := k.encKey, salt := k.salt, s2kparams := k.s2kparams }

section
variable [Alphabet]

def principalFields {δ : Type} (column : List Str → δ) (p : StoredPrincipal) :
    Except StoreError (PrincipalCols δ) := do
  let maxLife ← Sql.optional Sql.ofU64 p.maxLife
  let maxRenewableLife ← Sql.optional Sql.ofU64 p.maxRenewableLife
  let securityEpoch ← Sql.ofU64 p.securityEpoch
  let tlData ← encodeTlData p.tlData
  .ok
    { nameType := p.name.nameType.toInt64
      attributes := Sql.ofU32 p.attributes
      maxLife, maxRenewableLife
      expiration := p.expiration
      pwExpiration := p.pwExpiration
      lastPwdChange := p.lastPwdChange
      modTime := p.modTime
      policy := p.policy
      securityEpoch
      lastAdminUnlock := p.lastAdminUnlock
      delegateTo := column p.allowedToDelegateTo
      delegateFrom := column p.allowedToDelegateFrom
      tlData }

def lockoutFields (l : LockoutRecord) : LockoutCols where
  nameType := l.name.nameType.toInt64
  lockedAt := l.lockedAt
  unlockAt := l.unlockAt
  sourceKdc := l.sourceKdc.bytes

end

def policyFields (p : StoredPolicy) : Except StoreError PolicyCols := do
  let tlData ← policyTlData p.tlData
  .ok
    { pwMinLife := Sql.ofU32 p.pwMinLife
      pwMaxLife := Sql.ofU32 p.pwMaxLife
      pwMinLength := Sql.ofU32 p.pwMinLength
      pwMinClasses := Sql.ofU32 p.pwMinClasses
      pwHistoryNum := Sql.ofU32 p.pwHistoryNum
      pwMaxFail := Sql.ofU32 p.pwMaxFail
      pwFailcntInterval := Sql.ofU32 p.pwFailcntInterval
      pwLockoutDuration := Sql.ofU32 p.pwLockoutDuration
      attributes := Sql.ofU32 p.attributes
      maxLife := Sql.ofU32 p.maxLife
      maxRenewableLife := Sql.ofU32 p.maxRenewableLife
      allowedKeysalts := p.allowedKeysalts
      securityEpoch := Sql.saturate p.securityEpoch
      tlData }

abbrev NameKey := Str × Bytes

end Krb5Rs
