import Krb5Rs.Master

/-!
# Master keys

`kdb/mit/mkey.rs`: the list of master keys in the entry `K/M`, which of them is
active from when (`ACTKVNO`), and the newest one encrypted in each older one
(`MKEY_AUX`).
-/

namespace Krb5Rs

open Wire (Bytes Reader take)

def tlVersion : UInt16 := 1

def ofU16 (bs : Bytes) : UInt16 := UInt16.ofNat (Wire.ofLe bs)

def ofU32 (bs : Bytes) : UInt32 := UInt32.ofNat (Wire.ofLe bs)

@[simp] theorem ofU16_u16 (v : UInt16) : ofU16 (Codec.u16 v) = v := by
  rw [ofU16, Codec.ofLe_u16, UInt16.ofNat_toNat]

@[simp] theorem ofU32_u32 (v : UInt32) : ofU32 (Codec.u32 v) = v := by
  rw [ofU32, Codec.ofLe_u32, UInt32.ofNat_toNat]

section
variable [Alphabet]

def MitEntry.tl (entry : MitEntry) (kind : UInt16) : Option Bytes := Tagged.find kind entry.tlData

def MitEntry.putTl (entry : MitEntry) (kind : UInt16) (data : Option Bytes) : MitEntry :=
  { entry with tlData := Tagged.put kind data entry.tlData }

end

/-! ## The activation list -/

structure ActKvno where
  kvno : UInt16
  actTime : UInt32
deriving Repr, DecidableEq

def ActKvno.encode (node : ActKvno) : Bytes := Codec.u16 node.kvno ++ Codec.u32 node.actTime

/-- The whole nodes of six bytes; a shorter rest is dropped. -/
def actNodes : Bytes → List ActKvno
  | a :: b :: c :: d :: e :: f :: rest => ⟨ofU16 [a, b], ofU32 [c, d, e, f]⟩ :: actNodes rest
  | _ => []

section
variable [Alphabet]

def lookupActkvno (entry : MitEntry) : Except StoreError (List ActKvno) :=
  match entry.tl actkvno with
  | none =>
    match entry.keyData.getLast? with
    | some key => .ok [⟨key.kvno, 0⟩]
    | none => .error (.corrupt "K/M has no key")
  | some bytes =>
    if bytes.length < 2 then .error (.corrupt "short KRB5_TL_ACTKVNO")
    else
      let version := ofU16 (bytes.take 2)
      if version ≠ tlVersion then
        .error (.backend ("Illegal version number for KRB5_TL_ACTKVNO " ++ toString version.toNat))
      else if bytes.length < 8 then .error (.corrupt "short KRB5_TL_ACTKVNO")
      else .ok (actNodes (bytes.drop 2))

def updateActkvno (entry : MitEntry) (list : List ActKvno) : MitEntry :=
  if list = [] then entry.putTl actkvno none
  else entry.putTl actkvno (some (Codec.u16 tlVersion ++ list.flatMap ActKvno.encode))

end

/-! ## Auxiliary data -/

/-- The master key of version `latestKvno` encrypted in the one of version `mkeyKvno`. -/
structure MkeyAux where
  mkeyKvno : UInt16
  latestKvno : UInt16
  enctype : Int16
  contents : Bytes
deriving Repr, DecidableEq

def MkeyAux.bytes (node : MkeyAux) : Bytes :=
  Codec.u16 node.mkeyKvno ++ (Codec.u16 node.latestKvno ++ (Codec.u16 node.enctype.toUInt16 ++
    (Codec.u16 (UInt16.ofNat node.contents.length) ++ node.contents)))

def MkeyAux.encode (node : MkeyAux) : Except StoreError Bytes :=
  if node.contents.length < 2 ^ 16 then .ok node.bytes
  else .error (.backend "master key auxiliary data too long")

def MkeyAux.decode : Reader StoreError MkeyAux := do
  let head ← take (.corrupt "truncated KRB5_TL_MKEY_AUX") 8
  let contents ← take (.corrupt "truncated KRB5_TL_MKEY_AUX") (ofU16 (head.drop 6)).toNat
  pure
    { mkeyKvno := ofU16 (head.take 2)
      latestKvno := ofU16 ((head.drop 2).take 2)
      enctype := (ofU16 ((head.drop 4).take 2)).toInt16
      contents }

section
variable [Alphabet]

def lookupMkeyAux (entry : MitEntry) : Except StoreError (List MkeyAux) :=
  match entry.tl mkeyAux with
  | none => .ok []
  | some bytes =>
    if bytes.length < 2 then .error (.corrupt "short KRB5_TL_MKEY_AUX")
    else
      let version := ofU16 (bytes.take 2)
      if version ≠ tlVersion then
        .error (.backend ("Illegal version number for KRB5_TL_MKEY_AUX " ++ toString version.toNat))
      else if bytes.length < 10 then .error (.corrupt "short KRB5_TL_MKEY_AUX")
      else Wire.untilEnd MkeyAux.decode bytes.length (bytes.drop 2)

def updateMkeyAux (entry : MitEntry) (list : List MkeyAux) : Except StoreError MitEntry :=
  if list = [] then .ok (entry.putTl mkeyAux none)
  else do
    let nodes ← Wire.writeAll MkeyAux.encode list
    .ok (entry.putTl mkeyAux (some (Codec.u16 tlVersion ++ nodes)))

end

/-! ## The decrypted list -/

/-- The decrypted master keys, newest first, and the activation list. -/
structure MasterKeys where
  keys : List (UInt16 × EncryptionKey)
  actkvno : List ActKvno
deriving Repr, DecidableEq

def noMatchingKey (kvno : UInt16) : StoreError :=
  .backend ("No matching key in entry (master key version " ++ toString kvno.toNat ++ ")")

namespace MasterKeys

def get (keys : MasterKeys) (kvno : UInt16) : Option EncryptionKey :=
  (keys.keys.find? fun k => k.1 = kvno).map (·.2)

def lastActive (now : UInt32) (kvno : UInt16) : List ActKvno → UInt16
  | [] => kvno
  | node :: nodes => if now < node.actTime then kvno else lastActive now node.kvno nodes

def findActkvnoIn (now : UInt32) : List ActKvno → Option UInt16
  | [] => none
  | node :: nodes => some (lastActive now node.kvno nodes)

def findActkvno (keys : MasterKeys) (now : UInt32) : Option UInt16 := findActkvnoIn now keys.actkvno

def activeAt (keys : MasterKeys) (now : UInt32) : Except StoreError (UInt16 × EncryptionKey) :=
  match keys.findActkvno now with
  | none => .error (.corrupt "K/M has no active master key")
  | some kvno =>
    match keys.get kvno with
    | none => .error (noMatchingKey kvno)
    | some key => .ok (kvno, key)

end MasterKeys

def keyField (data : KeyData) (message : String) : Except StoreError (Int16 × Bytes) :=
  match data.fields with
  | [] => .error (.corrupt message)
  | field :: _ => .ok field

section
variable [Alphabet]

def entryMkvno (entry : MitEntry) : Except StoreError UInt16 :=
  match entry.tl mkvno with
  | none => .ok 1
  | some bytes =>
    if bytes.length = 2 then .ok (ofU16 bytes)
    else .error (.corrupt "MIT MKVNO tl-data must be 2 bytes")

def nextKvno (km : MitEntry) : UInt16 :=
  let kvno := ((km.keyData.head?.map (·.kvno)).getD 0) + 1
  if kvno = 0 then 1 else kvno

variable [Crypto]

/-! ## Fetching -/

def latestKey (km : MitEntry) (mkey : EncryptionKey) (etype : Int16) (blob : Bytes) :
    Except StoreError (Option EncryptionKey) :=
  let direct :=
    if etype.toInt32 = mkey.keytype then (decryptKey mkey mkey.keytype blob).toOption else none
  match direct with
  | some current => .ok (some current)
  | none => do
    let aux ← lookupMkeyAux km
    .ok (aux.findSome? fun a => (decryptKey mkey a.enctype.toInt32 a.contents).toOption)

def olderKey (current : EncryptionKey) (data : KeyData) : Except StoreError (UInt16 × EncryptionKey) := do
  let (etype, blob) ← keyField data "K/M key-data record has no key field"
  let key ← decryptKey current etype.toInt32 blob
  .ok (data.kvno, key)

def MasterKeys.fetch (km : MitEntry) (mkey : EncryptionKey) : Except StoreError MasterKeys :=
  match km.keyData with
  | [] => .error (.corrupt "K/M has no key")
  | first :: rest => do
    let (etype, blob) ← keyField first "K/M key-data record has no key field"
    let current ← latestKey km mkey etype blob
    match current with
    | none =>
      .error (.backend "Unable to decrypt latest master key with the provided master key")
    | some current => do
      let older ← rest.mapM (olderKey current)
      let actkvno ← lookupActkvno km
      .ok { keys := (first.kvno, current) :: older, actkvno }

/-! ## Editing -/

def mkeyData (confounder : Bytes) (under key : EncryptionKey) (kvno : UInt16) : Except StoreError KeyData :=
  if ¬ (-2 ^ 15 ≤ key.keytype.toInt ∧ key.keytype.toInt < 2 ^ 15) then
    .error (.backend "MIT enctype exceeds i16")
  else do
    let blob ← encryptKey confounder under key
    .ok { ver := 1, kvno, fields := [(key.keytype.toInt16, blob)] }

def addOld (draw : Nat → Bytes) (new : EncryptionKey) (kvno : UInt16) (old : UInt16 × EncryptionKey) :
    Except StoreError (KeyData × MkeyAux) := do
  let data ← mkeyData (draw 0) new old.2 old.1
  let latest ← mkeyData (draw 1) old.2 new kvno
  let (enctype, contents) ← keyField latest "one field"
  .ok (data, { mkeyKvno := old.1, latestKvno := kvno, enctype, contents })

/-- `draw` gives the confounders in the order of the encryptions. -/
def addOlds (draw : Nat → Bytes) (new : EncryptionKey) (kvno : UInt16) :
    List (UInt16 × EncryptionKey) → Except StoreError (List (KeyData × MkeyAux))
  | [] => .ok []
  | old :: olds => do
    let one ← addOld draw new kvno old
    let rest ← addOlds (fun i => draw (i + 2)) new kvno olds
    .ok (one :: rest)

def addNewMkey (draw : Nat → Bytes) (km : MitEntry) (keys : MasterKeys) (new : EncryptionKey) :
    Except StoreError MitEntry := do
  let kvno := nextKvno km
  let first ← mkeyData (draw 0) new new kvno
  let olds ← addOlds (fun i => draw (i + 1)) new kvno keys.keys
  let km : MitEntry := { km with keyData := first :: olds.map (·.1) }
  let km := km.putTl mkvno (some (Codec.u16 kvno))
  updateMkeyAux km (olds.map (·.2))

end

def insertActkvno (kvno : UInt16) (start : UInt32) (list : List ActKvno) : List ActKvno :=
  match list.findIdx? fun a => start < a.actTime with
  | some i => list.insertIdx i ⟨kvno, start⟩
  | none => list ++ [⟨kvno, start⟩]

def editActkvno (list : List ActKvno) (kvno : UInt16) (start : UInt32) : List ActKvno :=
  match list.findIdx? fun a => a.kvno = kvno with
  | some i =>
    if list.length = 1 then list.map fun a => { a with actTime := start }
    else insertActkvno kvno start (list.eraseIdx i)
  | none => insertActkvno kvno start list

def useMkey (list : List ActKvno) (kvno : UInt16) (start now : UInt32) : Except StoreError (List ActKvno) :=
  let list := editActkvno list kvno start
  match list with
  | [] => .ok list
  | first :: _ =>
    if now < first.actTime then .error (.backend "there must be one master key currently active")
    else .ok list

def dropFirst {α : Type} (kvno : α → UInt16) (versions : List UInt16) (list : List α) : List α :=
  versions.foldl (fun list v => list.eraseP fun a => kvno a = v) list

section
variable [Alphabet]

def purgeMkeys (km : MitEntry) (inUse : List UInt16) : Except StoreError (MitEntry × List UInt16) := do
  let purged := (km.keyData.map (·.kvno)).filter fun kvno => kvno ∉ inUse
  if purged = [] then .ok (km, purged)
  else do
    let actkvno ← lookupActkvno km
    let aux ← lookupMkeyAux km
    let km := { km with keyData := km.keyData.filter fun k => k.kvno ∈ inUse }
    let km := updateActkvno km (dropFirst (·.kvno) purged actkvno)
    let km ← updateMkeyAux km (dropFirst (·.mkeyKvno) purged aux)
    .ok (km, purged)

variable [Crypto]

def rewrapKeyData (confounder : Bytes) (data : KeyData) (old new : EncryptionKey) :
    Except StoreError KeyData :=
  match data.fields with
  | [] => .error (.corrupt "key-data record has no key field")
  | (etype, blob) :: fields => do
    let key ← decryptKey old etype.toInt32 blob
    let blob ← encryptKey confounder new key
    .ok { data with fields := (etype, blob) :: fields }

def rewrapAll (draw : Nat → Bytes) (old new : EncryptionKey) : List KeyData → Except StoreError (List KeyData)
  | [] => .ok []
  | data :: rest => do
    let data ← rewrapKeyData (draw 0) data old new
    let rest ← rewrapAll (fun i => draw (i + 1)) old new rest
    .ok (data :: rest)

def convertEntry (draw : Nat → Bytes) (entry : MitEntry) (keys : MasterKeys) (newKvno : UInt16)
    (new : EncryptionKey) : Except StoreError MitEntry := do
  let oldKvno ← entryMkvno entry
  match keys.get oldKvno with
  | none => .error (noMatchingKey oldKvno)
  | some old => do
    let keyData ← rewrapAll draw old new entry.keyData
    .ok ({ entry with keyData }.putTl mkvno (some (Codec.u16 newKvno)))

end

end Krb5Rs
