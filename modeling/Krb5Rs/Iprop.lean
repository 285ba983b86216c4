import Krb5Rs.MitEntry

/-!
# Incremental propagation updates

The update types of `kdb/mit/ulog.rs` and the two conversions between entries
and updates: `update_from_entry` on the primary, `entry_from_update` on a
replica.
-/

namespace Krb5Rs

open Wire (Bytes)
open Utf8 (Str)

structure Time where
  seconds : UInt32
  useconds : UInt32
deriving Repr, DecidableEq

namespace Iprop

structure Key where
  ver : Int32
  kvno : Int32
  enctypes : List Int32
  contents : List Bytes
deriving Repr, DecidableEq

structure Princ where
  realm : Bytes
  components : List (Int32 × Bytes)
  nameType : Int32
deriving Repr, DecidableEq

structure Tl where
  kind : Int16
  data : Bytes
deriving Repr, DecidableEq

inductive Value
  | attrFlags (v : UInt32)
  | maxLife (v : UInt32)
  | maxRenewLife (v : UInt32)
  | exp (v : UInt32)
  | pwExp (v : UInt32)
  | lastSuccess (v : UInt32)
  | lastFailed (v : UInt32)
  | failAuthCount (v : UInt32)
  | princ (p : Princ)
  | keyData (keys : List Key)
  | tlData (tls : List Tl)
  | len (v : Int16)
  | modPrinc (p : Princ)
  | modTime (v : UInt32)
  | modWhere (s : Bytes)
  | pwLastChange (v : UInt32)
  | pwPolicy (s : Bytes)
  | pwPolicySwitch (b : Bool)
  | pwHistKvno (v : UInt32)
  | pwHist (hist : List (List Key))
  | extension (t : Int32) (s : Bytes)
deriving DecidableEq

structure Update where
  princName : Bytes
  sno : UInt32
  time : Time
  values : List Value
  deleted : Bool
  commit : Bool
  kdcsSeenBy : List Bytes
  futures : Bytes
deriving DecidableEq

def kv5mData : Int32 := -1760647422

def baseLength : Int16 := 38

section
variable [Alphabet]

def ulogPrinc (name : PrincipalName) (realm : Str) : Princ :=
  { realm := realm.bytes
    components := name.nameString.map fun c => (kv5mData, c.bytes)
    nameType := name.nameType }

def ulogTl (entry : MitEntry) (kind : UInt16) : Option Bytes := Tagged.find kind entry.tlData

/-! ## From an entry to an update -/

/-- Whether `AT_PRINC` is reported: always when the realms are equal, as MIT's comparison has it. -/
def princChanged (current new : MitEntry) : Bool :=
  let cp := current.principal
  let np := new.principal
  if cp.nameType = np.nameType ∧ cp.nameString.length = np.nameString.length then
    if current.realm.bytes.length = new.realm.bytes.length ∧ current.realm ≠ new.realm then
      (cp.nameString.zip np.nameString).any fun (a, b) =>
        ¬ (a.bytes.length ≤ b.bytes.length ∧ b.bytes.take a.bytes.length = a.bytes)
    else true
  else true

/-- The attribute types that differ, by their numbers in `kdbe_attr_type_t`. -/
def changedAttrs (current new : MitEntry) : List Nat :=
  (if current.attributes ≠ new.attributes then [0] else []) ++
  (if current.maxLife ≠ new.maxLife then [1] else []) ++
  (if current.maxRenewableLife ≠ new.maxRenewableLife then [2] else []) ++
  (if current.expiration ≠ new.expiration then [3] else []) ++
  (if current.pwExpiration ≠ new.pwExpiration then [4] else []) ++
  (if princChanged current new then [8] else []) ++
  (if current.keyData.length ≠ new.keyData.length ∨
      (current.keyData.zip new.keyData).any (fun (a, b) => a ≠ b) then [9] else []) ++
  (if current.tlData ≠ new.tlData then [10] else [])

def signed (v : UInt32) : Bool := 0 ≤ v.toInt32

def logKey (k : KeyData) : Key :=
  let fields := (List.range k.ver.toNat).map fun i => (k.fields[i]?).getD (0, [])
  { ver := Int32.ofNat k.ver.toNat
    kvno := Int32.ofNat k.kvno.toNat
    enctypes := fields.map (·.1.toInt32)
    contents := fields.map (·.2) }

def pwStamp (entry : MitEntry) : UInt32 :=
  match ulogTl entry lastPwdChange with
  | some d => if d.length = 4 then UInt32.ofNat (Wire.ofLe d) else 0
  | none => 0

def modValues (entry : MitEntry) : List Value :=
  match ulogTl entry modPrinc with
  | none => []
  | some d =>
    if 5 ≤ d.length ∧ d.getLast? = some 0 then
      match parseName (d.drop 4).dropLast with
      | .error _ => []
      | .ok (name, realm) =>
        [.modPrinc (ulogPrinc name realm), .modTime (UInt32.ofNat (Wire.ofLe (d.take 4)))]
    else []

def logTls (entry : MitEntry) : List Tl :=
  (entry.tlData.filter fun t => t.kind ≠ lastPwdChange ∧ t.kind ≠ modPrinc).map fun t =>
    { kind := t.kind.toInt16, data := t.data }

def attrValues (entry : MitEntry) : Nat → List Value
  | 0 => if signed entry.attributes then [.attrFlags entry.attributes] else []
  | 1 => if signed entry.maxLife then [.maxLife entry.maxLife] else []
  | 2 => if signed entry.maxRenewableLife then [.maxRenewLife entry.maxRenewableLife] else []
  | 3 => if signed entry.expiration then [.exp entry.expiration] else []
  | 4 => if signed entry.pwExpiration then [.pwExp entry.pwExpiration] else []
  | 8 =>
    if entry.principal.nameString.isEmpty then []
    else [.princ (ulogPrinc entry.principal entry.realm)]
  | 9 => [.keyData (entry.keyData.map logKey)]
  | 10 =>
    .pwLastChange (pwStamp entry) ::
      (modValues entry ++ if (logTls entry).isEmpty then [] else [.tlData (logTls entry)])
  | 11 => [.len baseLength]
  | _ => []

def updateFromEntry (current : Option MitEntry) (entry : MitEntry) : Update :=
  let attrs := match current with
    | none => List.range 12
    | some cur => changedAttrs cur entry
  { princName := unparseName entry.principal entry.realm
    sno := 0
    time := ⟨0, 0⟩
    values := attrs.flatMap (attrValues entry)
    deleted := false
    commit := false
    kdcsSeenBy := []
    futures := [] }

/-! ## From an update to an entry -/

def componentsOf : List (Int32 × Bytes) → Except StoreError (List GeneralString)
  | [] => .ok []
  | (_, c) :: cs =>
    match GeneralString.fromBytes c with
    | none => .error (.backend "invalid principal component in update")
    | some g => (componentsOf cs).map (g :: ·)

def princName (p : Princ) : Except StoreError (PrincipalName × Str) := do
  let nameString ← componentsOf p.components
  match Str.ofUtf8 p.realm with
  | none => .error (.backend "invalid principal realm in update")
  | some realm => .ok (⟨p.nameType, nameString⟩, realm)

def setTl (entry : MitEntry) (kind : UInt16) (data : Bytes) : MitEntry :=
  { entry with tlData := Tagged.update kind data entry.tlData }

def dbKey (k : Key) : Except StoreError KeyData :=
  if 2 < k.ver then .error (.backend "invalid key data version in update")
  else
    .ok { ver := k.ver.toUInt32.toUInt16
          kvno := k.kvno.toUInt32.toUInt16
          fields := (List.range k.ver.toInt.toNat).map fun i =>
            (((k.enctypes[i]?).getD 0).toInt16, (k.contents[i]?).getD []) }

structure Patch where
  entry : MitEntry
  modBy : Option (PrincipalName × Str)
  modTime : UInt32

def Patch.apply (s : Patch) : Value → Except StoreError Patch
  | .attrFlags v => .ok { s with entry := { s.entry with attributes := v } }
  | .maxLife v => .ok { s with entry := { s.entry with maxLife := v } }
  | .maxRenewLife v => .ok { s with entry := { s.entry with maxRenewableLife := v } }
  | .exp v => .ok { s with entry := { s.entry with expiration := v } }
  | .pwExp v => .ok { s with entry := { s.entry with pwExpiration := v } }
  | .princ p => do
    let (principal, realm) ← princName p
    .ok { s with entry := { s.entry with principal := principal, realm := realm } }
  | .keyData keys => do
    let keys ← keys.mapM dbKey
    .ok { s with entry := { s.entry with keyData := keys } }
  | .tlData tls =>
    .ok { s with entry := tls.foldl (fun e t => setTl e t.kind.toUInt16 t.data) s.entry }
  | .pwLastChange v => .ok { s with entry := setTl s.entry lastPwdChange (Wire.le 4 v.toNat) }
  | .modPrinc p => do
    let name ← princName p
    .ok { s with modBy := some name }
  | .modTime v => .ok { s with modTime := v }
  | _ => .ok s

def Patch.finish (s : Patch) : MitEntry :=
  match s.modBy with
  | some (name, realm) =>
    if s.modTime ≠ 0 then
      setTl s.entry modPrinc (Wire.le 4 s.modTime.toNat ++ unparseName name realm ++ [0])
    else s.entry
  | none => s.entry

def emptyEntry (principal : PrincipalName) (realm : Str) : MitEntry :=
  { principal, realm, attributes := 0, maxLife := 0, maxRenewableLife := 0, expiration := 0,
    pwExpiration := 0, lastSuccess := 0, lastFailed := 0, failAuthCount := 0, tlData := [], keyData := [] }

def entryFromUpdate (current : Option MitEntry) (upd : Update) : Except StoreError MitEntry := do
  let entry ← match current with
    | some e => .ok e
    | none => (parseName upd.princName).map fun (principal, realm) => emptyEntry principal realm
  let s ← upd.values.foldlM Patch.apply { entry, modBy := none, modTime := 0 }
  .ok s.finish

end

end Iprop

end Krb5Rs
