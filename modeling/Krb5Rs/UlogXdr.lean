import Krb5Rs.Iprop

/-!
# The XDR form of updates

`XdrWriter` and `XdrReader` of `kdb/mit/ulog.rs`. Every item is a multiple of
four bytes long, so the writer's padding of its whole buffer is the padding of
each item.
-/

namespace Krb5Rs

open Wire (Bytes Reader take fail remaining times writeAll)

namespace Iprop

/-! ## Writing -/

def putU32 (v : UInt32) : Bytes := Wire.be 4 v.toNat

def putI32 (v : Int32) : Bytes := putU32 v.toUInt32

def putBool (b : Bool) : Bytes := putU32 (if b then 1 else 0)

def putLen (n : Nat) : Except StoreError Bytes :=
  if n < 2 ^ 32 then .ok (Wire.be 4 n) else .error (.corrupt "XDR array too long")

def padding (n : Nat) : Nat := (4 - n % 4) % 4

def putOpaque (v : Bytes) : Except StoreError Bytes := do
  let len ← putLen v.length
  .ok (len ++ (v ++ List.replicate (padding v.length) 0))

def putTime (t : Time) : Bytes := putU32 t.seconds ++ putU32 t.useconds

def putArray {α : Type} (w : α → Except StoreError Bytes) (l : List α) : Except StoreError Bytes := do
  let len ← putLen l.length
  let items ← writeAll w l
  .ok (len ++ items)

def putKey (k : Key) : Except StoreError Bytes := do
  let enctypes ← putArray (fun e => .ok (putI32 e)) k.enctypes
  let contents ← putArray putOpaque k.contents
  .ok (putI32 k.ver ++ (putI32 k.kvno ++ (enctypes ++ contents)))

def putKeys (keys : List Key) : Except StoreError Bytes := putArray putKey keys

def putComponent (c : Int32 × Bytes) : Except StoreError Bytes := do
  let data ← putOpaque c.2
  .ok (putI32 c.1 ++ data)

def putPrinc (p : Princ) : Except StoreError Bytes := do
  let realm ← putOpaque p.realm
  let components ← putArray putComponent p.components
  .ok (realm ++ (components ++ putI32 p.nameType))

def putTl (t : Tl) : Except StoreError Bytes := do
  let data ← putOpaque t.data
  .ok (putI32 t.kind.toInt32 ++ data)

def Value.attrType : Value → Int32
  | .attrFlags _ => 0
  | .maxLife _ => 1
  | .maxRenewLife _ => 2
  | .exp _ => 3
  | .pwExp _ => 4
  | .lastSuccess _ => 5
  | .lastFailed _ => 6
  | .failAuthCount _ => 7
  | .princ _ => 8
  | .keyData _ => 9
  | .tlData _ => 10
  | .len _ => 11
  | .modPrinc _ => 12
  | .modTime _ => 13
  | .modWhere _ => 14
  | .pwLastChange _ => 15
  | .pwPolicy _ => 16
  | .pwPolicySwitch _ => 17
  | .pwHistKvno _ => 18
  | .pwHist _ => 19
  | .extension t _ => t

def Value.putBody : Value → Except StoreError Bytes
  | .attrFlags x | .maxLife x | .maxRenewLife x | .exp x | .pwExp x | .lastSuccess x
  | .lastFailed x | .failAuthCount x | .modTime x | .pwLastChange x | .pwHistKvno x => .ok (putU32 x)
  | .princ p | .modPrinc p => putPrinc p
  | .keyData keys => putKeys keys
  | .tlData tls => putArray putTl tls
  | .len x => .ok (putI32 x.toInt32)
  | .modWhere s | .pwPolicy s | .extension _ s => putOpaque s
  | .pwPolicySwitch b => .ok (putBool b)
  | .pwHist hist => putArray putKeys hist

def putValue (v : Value) : Except StoreError Bytes := do
  let body ← v.putBody
  .ok (putI32 v.attrType ++ body)

def Update.encode (u : Update) : Except StoreError Bytes := do
  let princName ← putOpaque u.princName
  let values ← putArray putValue u.values
  let kdcsSeenBy ← putArray putOpaque u.kdcsSeenBy
  let futures ← putOpaque u.futures
  .ok (princName ++ (putU32 u.sno ++ (putTime u.time ++ (values ++
    (putBool u.deleted ++ (putBool u.commit ++ (kdcsSeenBy ++ futures)))))))

/-! ## Reading -/

def conv (what : String) : StoreError := .corrupt ("malformed iprop XDR: " ++ what)

abbrev XdrReader (α : Type) := Reader StoreError α

def getU32 : XdrReader UInt32 := do
  let b ← take (conv "truncated") 4
  pure (UInt32.ofNat (Wire.ofBe b))

def getI32 : XdrReader Int32 := do
  let v ← getU32
  pure v.toInt32

def getBool : XdrReader Bool := do
  let v ← getU32
  pure (v ≠ 0)

def getI16 : XdrReader Int16 := do
  let v ← getI32
  if -2 ^ 15 ≤ v.toInt ∧ v.toInt < 2 ^ 15 then pure v.toInt16 else fail (conv "short out of range")

def getCount : XdrReader Nat := do
  let n ← getU32
  let left ← remaining
  if left / 4 < n.toNat then fail (conv "array count exceeds data") else pure n.toNat

def getOpaque : XdrReader Bytes := do
  let n ← getU32
  let v ← take (conv "truncated") n.toNat
  let _ ← take (conv "truncated") (padding n.toNat)
  pure v

def getTime : XdrReader Time := do
  let seconds ← getU32
  let useconds ← getU32
  pure { seconds, useconds }

def getArray {α : Type} (r : XdrReader α) : XdrReader (List α) := do
  let n ← getCount
  times r n

def getKey : XdrReader Key := do
  let ver ← getI32
  let kvno ← getI32
  let enctypes ← getArray getI32
  let contents ← getArray getOpaque
  pure { ver, kvno, enctypes, contents }

def getKeys : XdrReader (List Key) := getArray getKey

def getComponent : XdrReader (Int32 × Bytes) := do
  let magic ← getI32
  let data ← getOpaque
  pure (magic, data)

def getPrinc : XdrReader Princ := do
  let realm ← getOpaque
  let components ← getArray getComponent
  let nameType ← getI32
  pure { realm, components, nameType }

def getTl : XdrReader Tl := do
  let kind ← getI16
  let data ← getOpaque
  pure { kind, data }

def getBody (t : Int32) : XdrReader Value :=
  match t.toInt with
  | 0 => do let v ← getU32; pure (.attrFlags v)
  | 1 => do let v ← getU32; pure (.maxLife v)
  | 2 => do let v ← getU32; pure (.maxRenewLife v)
  | 3 => do let v ← getU32; pure (.exp v)
  | 4 => do let v ← getU32; pure (.pwExp v)
  | 5 => do let v ← getU32; pure (.lastSuccess v)
  | 6 => do let v ← getU32; pure (.lastFailed v)
  | 7 => do let v ← getU32; pure (.failAuthCount v)
  | 8 => do let p ← getPrinc; pure (.princ p)
  | 9 => do let keys ← getKeys; pure (.keyData keys)
  | 10 => do let tls ← getArray getTl; pure (.tlData tls)
  | 11 => do let v ← getI16; pure (.len v)
  | 12 => do let p ← getPrinc; pure (.modPrinc p)
  | 13 => do let v ← getU32; pure (.modTime v)
  | 14 => do let s ← getOpaque; pure (.modWhere s)
  | 15 => do let v ← getU32; pure (.pwLastChange v)
  | 16 => do let s ← getOpaque; pure (.pwPolicy s)
  | 17 => do let b ← getBool; pure (.pwPolicySwitch b)
  | 18 => do let v ← getU32; pure (.pwHistKvno v)
  | 19 => do let hist ← getArray getKeys; pure (.pwHist hist)
  | _ => do let s ← getOpaque; pure (.extension t s)

def getValue : XdrReader Value := do
  let t ← getI32
  getBody t

def getUpdate : XdrReader Update := do
  let princName ← getOpaque
  let sno ← getU32
  let time ← getTime
  let values ← getArray getValue
  let deleted ← getBool
  let commit ← getBool
  let kdcsSeenBy ← getArray getOpaque
  let futures ← getOpaque
  pure { princName, sno, time, values, deleted, commit, kdcsSeenBy, futures }

def Update.decode (bytes : Bytes) : Except StoreError Update := (getUpdate bytes).map (·.1)

end Iprop

end Krb5Rs
