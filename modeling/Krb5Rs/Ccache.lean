import Krb5Rs.CcName
import Krb5Rs.Flags
import Krb5Rs.Pac
import Krb5Rs.Stateful

/-!
# FILE credential caches

`ccache/marshal.rs`, `ccache/file.rs` and what they need of `ccache/mod.rs` and
`ccache/retrieve.rs`. Numbers of versions 1 and 2 are in the host's order, little
endian here. A file is its bytes; writing it succeeds.
-/

namespace Krb5Rs

open Wire (Bytes Reader fail num ofBe take)
open Utf8 (Str)
open Pac (AuthData)

namespace Ccache

inductive CcError
  | badVno
  | format
  | notFound
  | io
deriving Repr, DecidableEq

structure HostAddress where
  addrType : Int32
  address : Bytes
deriving Repr, DecidableEq

structure CcCredential [Alphabet] where
  client : PrincipalName
  crealm : Str
  server : PrincipalName
  srealm : Str
  keyblock : EncryptionKey
  authtime : UInt32
  starttime : UInt32
  endtime : UInt32
  renewTill : UInt32
  isSkey : Bool
  ticketFlags : UInt32
  addresses : List HostAddress
  authdata : List AuthData
  ticket : Bytes
  secondTicket : Bytes
deriving DecidableEq

/-! ## Writing -/

def be (version : UInt8) : Bool := 3 ≤ version

def i16 (version : UInt8) (v : Int16) : Bytes := num (be version) 2 v.toUInt16.toNat

def i32 (version : UInt8) (v : Int32) : Bytes := num (be version) 4 v.toUInt32.toNat

def data (version : UInt8) (v : Bytes) : Bytes := i32 version (.ofNat v.length) ++ v

def marshalKeyblock (version : UInt8) (k : EncryptionKey) : Bytes :=
  i16 version k.keytype.toInt16 ++ (if version = 3 then i16 version k.keytype.toInt16 else []) ++
    data version k.keyBytes

def marshalItems {α : Type} (type : α → Int32) (bytes : α → Bytes) (version : UInt8) (items : List α) : Bytes :=
  i32 version (.ofNat items.length) ++
    items.flatMap fun a => i16 version (type a).toInt16 ++ data version (bytes a)

def marshalAddrs (version : UInt8) (addrs : List HostAddress) : Bytes :=
  marshalItems HostAddress.addrType HostAddress.address version addrs

def marshalAuthdata (version : UInt8) (ad : List AuthData) : Bytes :=
  marshalItems AuthData.adType AuthData.adData version ad

section
variable [Alphabet]

def marshalPrinc (version : UInt8) (p : PrincipalName) (realm : Str) : Bytes :=
  (if version = 1 then i32 version (.ofNat p.nameString.length + 1)
    else i32 version p.nameType ++ i32 version (.ofNat p.nameString.length)) ++
    data version realm.bytes ++ p.nameString.flatMap fun c => data version c.bytes

def marshalCred (version : UInt8) (c : CcCredential) : Bytes :=
  marshalPrinc version c.client c.crealm ++ marshalPrinc version c.server c.srealm ++
    marshalKeyblock version c.keyblock ++ i32 version c.authtime.toInt32 ++ i32 version c.starttime.toInt32 ++
    i32 version c.endtime.toInt32 ++ i32 version c.renewTill.toInt32 ++ [if c.isSkey then 1 else 0] ++
    i32 version c.ticketFlags.toInt32 ++ marshalAddrs version c.addresses ++ marshalAuthdata version c.authdata ++
    data version c.ticket ++ data version c.secondTicket

end

/-! ## Reading -/

def readI16 (version : UInt8) : Reader CcError Int16 := do
  let bs ← take .format 2
  pure (UInt16.ofNat (Wire.ofNum (be version) bs)).toInt16

def readI32 (version : UInt8) : Reader CcError Int32 := do
  let bs ← take .format 4
  pure (UInt32.ofNat (Wire.ofNum (be version) bs)).toInt32

def readU32 (version : UInt8) : Reader CcError UInt32 := do
  let v ← readI32 version
  pure v.toUInt32

def takeLen (len : Int32) : Reader CcError Bytes :=
  if len < 0 then fail .format else take .format len.toInt.toNat

def readData (version : UInt8) : Reader CcError Bytes := do
  let len ← readI32 version
  takeLen len

def checkCount (count : Int32) : Reader CcError Unit := do
  let left ← Wire.remaining
  if count < 0 ∨ left < count.toInt.toNat then fail .format else pure ()

def readSecond (version : UInt8) : Reader CcError Unit :=
  if version = 3 then (do let _ ← readI16 version; pure ()) else pure ()

def unmarshalKeyblock (version : UInt8) : Reader CcError EncryptionKey := do
  let etype ← readI16 version
  readSecond version
  let key ← readData version
  pure ⟨etype.toInt32, key⟩

def readItem {α : Type} (make : Int32 → Bytes → α) (version : UInt8) : Reader CcError α := do
  let type ← readI16 version
  let bytes ← readData version
  pure (make type.toInt32 bytes)

def unmarshalItems {α : Type} (make : Int32 → Bytes → α) (version : UInt8) : Reader CcError (List α) := do
  let count ← readI32 version
  checkCount count
  Wire.times (readItem make version) count.toInt.toNat

def unmarshalAddrs (version : UInt8) : Reader CcError (List HostAddress) := unmarshalItems HostAddress.mk version

def unmarshalAuthdata (version : UInt8) : Reader CcError (List AuthData) :=
  unmarshalItems AuthData.mk version

def readFlag : Reader CcError Bool := do
  let bs ← take .format 1
  pure (bs != [0])

section
variable [Alphabet]

def permitted (bs : Bytes) : Reader CcError GeneralString :=
  match GeneralString.fromBytes bs with
  | some c => pure c
  | none => fail .format

def readGs (version : UInt8) : Reader CcError GeneralString := do
  let bs ← readData version
  permitted bs

def readNameType (version : UInt8) : Reader CcError Int32 := if version = 1 then pure 0 else readI32 version

def unmarshalPrinc (version : UInt8) : Reader CcError (PrincipalName × Str) := do
  let nameType ← readNameType version
  let ncomps ← readI32 version
  checkCount ncomps
  let realm ← readData version
  let n := if version = 1 then ncomps - 1 else ncomps
  let nameString ← Wire.times (readGs version) n.toInt.toNat
  pure (⟨nameType, nameString⟩, Utf8.lossyStr realm)

def unmarshalCred (version : UInt8) : Reader CcError CcCredential := do
  let client ← unmarshalPrinc version
  let server ← unmarshalPrinc version
  let keyblock ← unmarshalKeyblock version
  let authtime ← readU32 version
  let starttime ← readU32 version
  let endtime ← readU32 version
  let renewTill ← readU32 version
  let isSkey ← readFlag
  let ticketFlags ← readU32 version
  let addresses ← unmarshalAddrs version
  let authdata ← unmarshalAuthdata version
  let ticket ← readData version
  let secondTicket ← readData version
  pure ⟨client.1, client.2, server.1, server.2, keyblock, authtime, starttime, endtime, renewTill, isSkey, ticketFlags,
    addresses, authdata, ticket, secondTicket⟩

end

/-- What is read from the front of the bytes, and how many of them it takes. -/
def unmarshalLen {α : Type} (r : Reader CcError α) (bs : Bytes) : Except CcError (α × Nat) :=
  (r bs).map fun out => (out.1, bs.length - out.2.length)

/-! ## Matching -/

namespace MatchFlags

def times : UInt32 := 1
def isSkey : UInt32 := 2
def flags : UInt32 := 4
def timesExact : UInt32 := 8
def flagsExact : UInt32 := 0x10
def authdata : UInt32 := 0x20
def srvNameonly : UInt32 := 0x40
def secondTkt : UInt32 := 0x80
def ktype : UInt32 := 0x100

end MatchFlags

structure MatchCred [Alphabet] where
  client : Option (PrincipalName × Str) := none
  server : Option (PrincipalName × Str) := none
  etype : Int32 := 0
  authtime : UInt32 := 0
  starttime : UInt32 := 0
  endtime : UInt32 := 0
  renewTill : UInt32 := 0
  isSkey : Bool := false
  ticketFlags : UInt32 := 0
  authdata : Option (List AuthData) := none
  secondTicket : Option Bytes := none

section
variable [Alphabet]

def princEq (p : PrincipalName × Str) (name : PrincipalName) (realm : Str) : Bool :=
  p.2 = realm ∧ p.1.nameString = name.nameString

def serverMatch (flags : UInt32) (p : PrincipalName × Str) (c : CcCredential) : Bool :=
  if Flags.contains flags MatchFlags.srvNameonly then p.1.nameString = c.server.nameString
  else princEq p c.server c.srealm

def flagsMatch (flags : UInt32) (m : MatchCred) (c : CcCredential) : Bool :=
  (Flags.contains flags MatchFlags.flagsExact → m.ticketFlags = c.ticketFlags) ∧
  (Flags.contains flags MatchFlags.flags → c.ticketFlags &&& m.ticketFlags = m.ticketFlags)

def timesMatch (flags : UInt32) (m : MatchCred) (c : CcCredential) : Bool :=
  (Flags.contains flags MatchFlags.timesExact →
    (m.authtime, m.starttime, m.endtime, m.renewTill) = (c.authtime, c.starttime, c.endtime, c.renewTill)) ∧
  (Flags.contains flags MatchFlags.times →
    ¬(m.renewTill ≠ 0 ∧ c.renewTill < m.renewTill ∨ m.endtime ≠ 0 ∧ c.endtime < m.endtime))

def credsMatchRequest (flags : UInt32) (m : MatchCred) (c : CcCredential) : Bool :=
  m.client.all (fun p => princEq p c.client c.crealm) &&
  m.server.all (fun p => serverMatch flags p c) &&
  c.isSkey == (Flags.contains flags MatchFlags.isSkey && m.isSkey) &&
  flagsMatch flags m c &&
  timesMatch flags m c &&
  (!Flags.contains flags MatchFlags.authdata || m.authdata.getD [] = c.authdata) &&
  (!Flags.contains flags MatchFlags.secondTkt || m.secondTicket.getD [] = c.secondTicket) &&
  (!Flags.contains flags MatchFlags.ktype || m.etype = c.keyblock.keytype)

end

/-! ## Configuration entries -/

def configRealm : Str := ⟨ascii "X-CACHECONF:", by decide⟩
def removedConfigRealm : Str := ⟨ascii "X-RMED-CONF:", by decide⟩
def configPrinc : Bytes := ascii "krb5_ccache_conf_data"

/-- A `GeneralString` can be any ASCII text. -/
class AsciiNames [Alphabet] : Prop where
  permits : ∀ b : Bytes, (∀ x ∈ b, x < 128) → Alphabet.permits b = true

section
variable [Alphabet]

def isConfigPrincipal (name : PrincipalName) (realm : Str) : Bool :=
  realm = configRealm ∧ name.components.head? = some configPrinc

/-- The string, or an empty one for bytes that none can have. -/
def generalString [AsciiNames] (b : Bytes) : GeneralString :=
  (GeneralString.fromBytes b).getD ⟨[], AsciiNames.permits [] (List.forall_mem_nil _)⟩

def configPrincipal [AsciiNames] (principal : Option (PrincipalName × Str)) (key : Str) : PrincipalName where
  nameType := 0
  nameString := [generalString configPrinc, generalString key.bytes] ++
    principal.toList.map fun p => generalString (ccUnparseName p.1 p.2)

def configCred [AsciiNames] (client : PrincipalName) (crealm : Str) (principal : Option (PrincipalName × Str))
    (key : Str) (data : Bytes) : CcCredential where
  client
  crealm
  server := configPrincipal principal key
  srealm := configRealm
  keyblock := ⟨0, []⟩
  authtime := 0
  starttime := 0
  endtime := 0
  renewTill := 0
  isSkey := false
  ticketFlags := 0
  addresses := []
  authdata := []
  ticket := data
  secondTicket := []

def configMatches (cred : CcCredential) (principal : Option (PrincipalName × Str)) (key : Str) : Bool :=
  isConfigPrincipal cred.server cred.srealm && (cred.server.components.drop 1).head? = some key.bytes &&
  match principal with
  | none => cred.server.components.length = 2
  | some p => cred.server.components.length = 3 && (cred.server.components.drop 2).head? = some (ccUnparseName p.1 p.2)

end

/-! ## The file -/

structure Header where
  version : UInt8
  length : Nat
  offset : Option (UInt32 × UInt32)

def headerFields : Nat → Bytes → Option (UInt32 × UInt32) → Except CcError (Option (UInt32 × UInt32))
  | 0, rest, offset => if rest = [] then .ok offset else .error .format
  | fuel + 1, rest, offset =>
    if rest.length < 4 then if rest = [] then .ok offset else .error .format
    else
      let tag := ofBe (rest.take 2)
      let flen := ofBe ((rest.drop 2).take 2)
      let field := (rest.drop 4).take flen
      if rest.length < 4 + flen then .error .format
      else if tag = 1 then
        if flen ≠ 8 then .error .format
        else headerFields fuel (rest.drop (4 + flen))
          (some (.ofNat (ofBe (field.take 4)), .ofNat (ofBe (field.drop 4))))
      else headerFields fuel (rest.drop (4 + flen)) offset

def parseHeader (data : Bytes) : Except CcError Header :=
  if data.length < 2 then .error .format
  else if data.head? ≠ some 5 then .error .badVno
  else
    let version := (data.drop 1).headD 0
    if ¬(1 ≤ version ∧ version ≤ 4) then .error .badVno
    else if version ≠ 4 then .ok ⟨version, 2, none⟩
    else if data.length < 4 then .error .format
    else
      let fieldsLen := ofBe ((data.drop 2).take 2)
      if fieldsLen ≠ 0 ∧ fieldsLen < 4 then .error .format
      else if data.length < 4 + fieldsLen then .error .format
      else (headerFields fieldsLen ((data.drop 4).take fieldsLen) none).map fun offset =>
        ⟨version, 4 + fieldsLen, offset⟩

structure FileCcache where
  version : UInt8
  timeOffset : Option (UInt32 × UInt32)
  file : Option Bytes
deriving DecidableEq

structure Content where
  data : Bytes
  version : UInt8
  start : Nat

structure Record [Alphabet] where
  off : Nat
  len : Nat
  cred : CcCredential
deriving DecidableEq

section
variable [Alphabet]

def recordsFrom (version : UInt8) : Nat → Nat → Bytes → Except CcError (List Record)
  | 0, _, _ => .ok []
  | fuel + 1, pos, rest =>
    if rest = [] then .ok []
    else do
      let out ← unmarshalLen (unmarshalCred version) rest
      if out.2 = 0 then .ok []
      else do
        let rs ← recordsFrom version fuel (pos + out.2) (rest.drop out.2)
        .ok (⟨pos, out.2, out.1⟩ :: rs)

def CcCredential.isRemoved (c : CcCredential) : Bool := c.endtime = 0 ∧ c.authtime ≠ 0

def CcCredential.removed (c : CcCredential) : CcCredential :=
  { c with
    authtime := 0xffffffff
    endtime := 0
    srealm := if c.srealm = configRealm then removedConfigRealm else c.srealm }

def headerBytes (version : UInt8) (timeOffset : Option (UInt32 × UInt32)) : Bytes :=
  [5, version] ++
    if version = 4 then
      match timeOffset with
      | some (secs, usecs) => Wire.be 2 12 ++ Wire.be 2 1 ++ Wire.be 2 8 ++ Wire.be 4 secs.toNat ++ Wire.be 4 usecs.toNat
      | none => Wire.be 2 0
    else []

namespace FileCcache

def readFile (file : Option Bytes) : Except CcError Bytes :=
  match file with
  | some data => .ok data
  | none => .error .io

def readAll : EStateM CcError FileCcache Content := do
  let x ← get
  let data ← Stateful.lift (readFile x.file)
  let header ← Stateful.lift (parseHeader data)
  modify fun x => { x with timeOffset := header.offset.or x.timeOffset }
  let princ ← Stateful.lift (unmarshalLen (unmarshalPrinc header.version) (data.drop header.length))
  pure ⟨data, header.version, header.length + princ.2⟩

def records : EStateM CcError FileCcache (List Record) := do
  let c ← readAll
  Stateful.lift (recordsFrom c.version c.data.length c.start (c.data.drop c.start))

def writeHeader (client : PrincipalName) (realm : Str) : EStateM CcError FileCcache Unit :=
  modify fun x => { x with
    file := some (headerBytes x.version x.timeOffset ++ marshalPrinc x.version client realm) }

def principal : EStateM CcError FileCcache (PrincipalName × Str) := do
  let c ← readAll
  let header ← Stateful.lift (parseHeader c.data)
  let princ ← Stateful.lift (unmarshalLen (unmarshalPrinc c.version) (c.data.drop header.length))
  pure princ.1

def store (cred : CcCredential) : EStateM CcError FileCcache Unit := do
  let c ← readAll
  modify fun x => { x with file := x.file.map (· ++ marshalCred c.version cred) }

def creds : EStateM CcError FileCcache (List CcCredential) := do
  let rs ← records
  pure ((rs.filter fun r => !r.cred.isRemoved).map Record.cred)

def removeRecord (c : Content) (r : Record) : Except CcError Bytes :=
  let bytes := marshalCred c.version r.cred.removed
  if bytes.length ≠ r.len then .error .format
  else .ok (c.data.take r.off ++ bytes ++ c.data.drop (r.off + r.len))

def removeFirst (flags : UInt32) (m : MatchCred) (c : Content) (rs : List Record) : Except CcError Bytes :=
  match rs.find? fun r => !r.cred.isRemoved && credsMatchRequest flags m r.cred with
  | none => .error .notFound
  | some r => removeRecord c r

def removeCred (flags : UInt32) (m : MatchCred) : EStateM CcError FileCcache Unit := do
  let c ← readAll
  let rs ← records
  let data ← Stateful.lift (removeFirst flags m c rs)
  modify fun x => { x with file := some data }

variable [AsciiNames]

def configRequest (principal : Option (PrincipalName × Str)) (key : Str) : MatchCred :=
  { server := some (configPrincipal principal key, configRealm) }

def storeConfig (target : Option (PrincipalName × Str)) (key : Str) (data : Option Bytes) :
    EStateM CcError FileCcache Unit :=
  match data with
  | none => pure ()
  | some data => do
    let client ← principal
    store (configCred client.1 client.2 target key data)

/-- That there is nothing to remove is not an error. -/
def setConfig (target : Option (PrincipalName × Str)) (key : Str) (data : Option Bytes) :
    EStateM CcError FileCcache Unit := do
  Stateful.attempt (removeCred 0 (configRequest target key))
  storeConfig target key data

end FileCcache

def FileCcache.getConfig (target : Option (PrincipalName × Str)) (key : Str) :
    EStateM CcError FileCcache (Option Bytes) := do
  let cs ← FileCcache.creds
  pure ((cs.find? fun c => configMatches c target key).map CcCredential.ticket)

end

end Ccache

end Krb5Rs
