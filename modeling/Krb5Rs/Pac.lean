import Krb5Rs.Master
import Krb5Rs.Utf16

/-!
# Privilege attribute certificates

`pac/mod.rs` and `pac/ticket.rs`. A PAC is kept as its bytes and the table of
its buffers; signing fills in checksums over the bytes and verifying computes
them again. Checksums and the DER of tickets are parameters.
-/

namespace Krb5Rs

open Wire (Bytes le ofLe)
open Utf8 (Str)

inductive PacError
  | invalid (msg : String)
  | range
  | noEntry
  | exists_
  | badMsize
  | modified
  | wrongPrinc
  | sumtypeNoSupp
  | badEnctype
  | generic (msg : String)
  | capacity
deriving Repr, DecidableEq

structure PacInfo where
  ty : UInt32
  size : UInt32
  offset : Nat
deriving Repr, DecidableEq

structure Pac where
  data : Bytes
  buffers : List PacInfo
deriving Repr, DecidableEq

namespace Pac

def serverChecksum : UInt32 := 6
def privsvrChecksum : UInt32 := 7
def clientInfoType : UInt32 := 10
def ticketChecksum : UInt32 := 16
def fullChecksum : UInt32 := 19

def adIfRelevant : Int32 := 1
def adWin2kPac : Int32 := 128

def maxBuffers : Nat := 4096
def ntTimeEpoch : Nat := 11644473600
def keyusageAppDataCksum : Int32 := 17
def ntEnterprise : Int32 := 10

def overwrite (data : Bytes) (start : Nat) (bs : Bytes) : Bytes :=
  data.take start ++ bs ++ data.drop (start + bs.length)

def slice (data : Bytes) (start len : Nat) : Bytes := (data.drop start).take len

def le32 (data : Bytes) (start : Nat) : UInt32 := UInt32.ofNat (ofLe (slice data start 4))

def new : Pac := ⟨List.replicate 8 0, []⟩

/-! ## Parsing -/

def parseInfo (bytes : Bytes) (headerLen i : Nat) : Except PacError PacInfo :=
  let p := 8 + i * 16
  let info : PacInfo := ⟨le32 bytes p, le32 bytes (p + 4), ofLe (slice bytes (p + 8) 8)⟩
  if info.offset % 8 ≠ 0 then .error (.invalid "unaligned buffer")
  else if info.offset < headerLen ∨ bytes.length < info.offset ∨ bytes.length - info.offset < info.size.toNat then
    .error .range
  else .ok info

def parse (bytes : Bytes) : Except PacError Pac :=
  let nbuffers := (le32 bytes 0).toNat
  let headerLen := 8 + nbuffers * 16
  if bytes.length < 8 then .error (.invalid "short header")
  else if le32 bytes 4 ≠ 0 then .error (.invalid "unsupported version")
  else if nbuffers < 1 ∨ maxBuffers < nbuffers then .error .range
  else if bytes.length < headerLen then .error .range
  else do
    let buffers ← (List.range nbuffers).mapM (parseInfo bytes headerLen)
    .ok ⟨bytes, buffers⟩

/-! ## Buffers -/

def contents (pac : Pac) (b : PacInfo) : Bytes := slice pac.data b.offset b.size.toNat

structure PacBuffer where
  ty : UInt32
  data : Bytes
deriving Repr, DecidableEq

def pacBuffers (pac : Pac) : List PacBuffer := pac.buffers.map fun b => ⟨b.ty, contents pac b⟩

def locate (pac : Pac) (ty : UInt32) : Except PacError PacInfo :=
  match pac.buffers.filter (·.ty = ty) with
  | [] => .error .noEntry
  | [b] => .ok b
  | _ => .error (.invalid "duplicate buffer")

def getBuffer (pac : Pac) (ty : UInt32) : Except PacError Bytes := do
  let b ← locate pac ty
  .ok (contents pac b)

def infoBytes (b : PacInfo) : Bytes := le 4 b.ty.toNat ++ le 4 b.size.toNat ++ le 8 b.offset

def header (buffers : List PacInfo) : Bytes := le 4 buffers.length ++ le 4 0 ++ buffers.flatMap infoBytes

def syncHeader (pac : Pac) : Pac :=
  { pac with data := header pac.buffers ++ pac.data.drop (8 + pac.buffers.length * 16) }

def shiftInfo (b : PacInfo) : PacInfo := { b with offset := b.offset + 16 }

def addBuffer (pac : Pac) (ty : UInt32) (body : Bytes) : Except PacError Pac :=
  if (locate pac ty).isOk then .error .exists_
  else if maxBuffers ≤ pac.buffers.length then .error .range
  else
    let headerLen := 8 + pac.buffers.length * 16
    let moved := pac.data.take headerLen ++ List.replicate 16 0 ++ pac.data.drop headerLen
    let pad := (8 - body.length % 8) % 8
    let data := moved ++ body ++ List.replicate pad 0
    if 2 ^ 63 ≤ data.length then .error .capacity
    else
      .ok (syncHeader ⟨data, pac.buffers.map shiftInfo ++ [⟨ty, UInt32.ofNat body.length, moved.length⟩]⟩)

/-! ## Client info -/

def escape (c : Char) : List Char :=
  match c with
  | '\\' => ['\\', '\\']
  | '/' => ['\\', '/']
  | '@' => ['\\', '@']
  | '\n' => ['\\', 'n']
  | '\t' => ['\\', 't']
  | '\x08' => ['\\', 'b']
  | '\x00' => ['\\', '0']
  | c => [c]

def escapeUnless (display : Bool) (s : List Char) : List Char := if display then s else s.flatMap escape

def lossyChars (b : Bytes) : List Char := Utf8.chars (Utf8.lossy b)

section
variable [Alphabet]

def unparseName (name : PrincipalName) (realm : Str) (display withRealm : Bool) : List Char :=
  let comps := name.nameString.map fun c => escapeUnless display (lossyChars c.bytes)
  ['/'].intercalate comps ++
    if withRealm then '@' :: escapeUnless display (Utf8.chars realm.bytes) else []

structure PacClientInfo where
  authtime : Int
  name : List Char
deriving DecidableEq

def unitsOf : Bytes → List UInt16
  | a :: b :: bs => UInt16.ofNat (ofLe [a, b]) :: unitsOf bs
  | _ => []

def unitBytes (u : UInt16) : Bytes := le 2 u.toNat

/-- `u64::wrapping_sub` of the epoch. -/
def sinceEpoch (nt : Nat) : Nat := (nt / 10000000 + 2 ^ 64 - ntTimeEpoch) % 2 ^ 64

def decodeClientInfo (ci : Bytes) : Except PacError PacClientInfo :=
  let abstime := sinceEpoch (ofLe (slice ci 0 8))
  let nameLen := ofLe (slice ci 8 2)
  if ci.length < 10 then .error .range
  else if 4294967295 < abstime then .error .range
  else if ci.length < 10 + nameLen ∨ nameLen % 2 ≠ 0 then .error .range
  else
    match Utf16.decode (unitsOf (slice ci 10 nameLen)) with
    | none => .error (.generic "client name is not valid UTF-16")
    | some name => .ok ⟨abstime, name⟩

def clientInfo (pac : Pac) : Except PacError PacClientInfo := do
  let ci ← getBuffer pac clientInfoType
  decodeClientInfo ci

def matchClient (info : PacClientInfo) (authtime : Int) (name : PrincipalName) (realm : Str) (withRealm : Bool) :
    Except PacError Unit :=
  if info.authtime ≠ authtime ∨ info.name ≠ unparseName name realm true withRealm then .error .wrongPrinc else .ok ()

def validateClient (pac : Pac) (authtime : Int) (name : PrincipalName) (realm : Str) (withRealm : Bool) :
    Except PacError Unit := do
  let info ← clientInfo pac
  matchClient info authtime name realm withRealm

def writtenName (name : PrincipalName) (realm : Str) (withRealm : Bool) : List Char :=
  unparseName name realm (withRealm && name.nameType = ntEnterprise) withRealm

def clientInfoBody (authtime : Int) (name : List Char) : Bytes :=
  let utf16 := (Utf16.encode name).flatMap unitBytes
  le 8 (((authtime % 2 ^ 32).toNat + ntTimeEpoch) * 10000000) ++ le 2 utf16.length ++ utf16

def insertClientInfo (pac : Pac) (authtime : Int) (name : PrincipalName) (realm : Str) (withRealm : Bool) :
    Except PacError Pac :=
  if (locate pac clientInfoType).isOk then do
    validateClient pac authtime name realm withRealm
    .ok pac
  else addBuffer pac clientInfoType (clientInfoBody authtime (writtenName name realm withRealm))

end

/-! ## Checksums -/

/-- The checksum of an encryption type: the arguments are type, key, usage and data. -/
class Checksums where
  checksum : Int32 → Bytes → Int32 → Bytes → Except String Bytes

def checksumType (etype : Int32) : Option UInt32 :=
  if etype = 17 then some 15 else if etype = 18 then some 16 else if etype = 19 then some 19
  else if etype = 20 then some 20 else none

def findCksumtype (cksumtype : UInt32) : Option Int32 :=
  if cksumtype = 15 then some 17 else if cksumtype = 16 then some 18 else if cksumtype = 19 then some 19
  else if cksumtype = 20 then some 20 else none

def checksumLength (cksumtype : UInt32) : Option Nat :=
  if cksumtype = 15 ∨ cksumtype = 16 then some 12 else if cksumtype = 19 then some 16
  else if cksumtype = 20 then some 24 else none

def blankSignature (pac : Pac) (ty : UInt32) (len : Nat) : Except PacError Pac :=
  match locate pac ty with
  | .ok b =>
    if b.size.toNat ≠ 4 + len then .error .range
    else .ok { pac with data := overwrite pac.data b.offset (List.replicate b.size.toNat 0) }
  | .error _ => addBuffer pac ty (List.replicate (4 + len) 0)

def stampType (pac : Pac) (ty cksumtype : UInt32) : Except PacError Pac := do
  let b ← locate pac ty
  .ok { pac with data := overwrite pac.data b.offset (le 4 cksumtype.toNat) }

def keyChecksum (key : EncryptionKey) : Except PacError (UInt32 × Nat) :=
  match checksumType key.keytype with
  | none => .error .badEnctype
  | some cksumtype =>
    match checksumLength cksumtype with
    | none => .error .sumtypeNoSupp
    | some len => .ok (cksumtype, len)

def insertChecksum (pac : Pac) (ty : UInt32) (key : EncryptionKey) : Except PacError (Pac × UInt32) := do
  let kind ← keyChecksum key
  let blank ← blankSignature pac ty kind.2
  let stamped ← stampType blank ty kind.1
  .ok (stamped, kind.1)

section
variable [Checksums]

def computeChecksum (key : EncryptionKey) (cksumtype : UInt32) (data : Bytes) : Except PacError Bytes :=
  match findCksumtype cksumtype with
  | none => .error .sumtypeNoSupp
  | some etype =>
    match Checksums.checksum etype key.keyBytes keyusageAppDataCksum data with
    | .error e => .error (.generic e)
    | .ok sum => .ok sum

def placeSum (pac : Pac) (b : PacInfo) (sum : Bytes) : Except PacError Pac :=
  if sum.length ≠ b.size.toNat - 4 then .error .range
  else .ok { pac with data := overwrite pac.data (b.offset + 4) sum }

def writeChecksum (pac : Pac) (ty : UInt32) (key : EncryptionKey) (cksumtype : UInt32) (data : Bytes) :
    Except PacError Pac := do
  let sum ← computeChecksum key cksumtype data
  let b ← locate pac ty
  placeSum pac b sum

def insertFull (isService : Bool) (pac : Pac) (key : EncryptionKey) : Except PacError Pac :=
  if isService then do
    let r ← insertChecksum pac fullChecksum key
    .ok r.1
  else .ok pac

def writeFull (isService : Bool) (pac : Pac) (key : EncryptionKey) (cksumtype : UInt32) : Except PacError Pac :=
  if isService then writeChecksum pac fullChecksum key cksumtype pac.data else .ok pac

section
variable [Alphabet]

def insertClient (pac : Pac) (authtime : Int) (client : Option (PrincipalName × Str)) (withRealm : Bool) :
    Except PacError Pac :=
  match client with
  | some c => insertClientInfo pac authtime c.1 c.2 withRealm
  | none => .ok pac

def signPac (pac : Pac) (authtime : Int) (client : Option (PrincipalName × Str)) (serverKey privsvrKey : EncryptionKey)
    (withRealm isService : Bool) : Except PacError Pac := do
  let pac ← insertClient pac authtime client withRealm
  let server ← insertChecksum pac serverChecksum serverKey
  let privsvr ← insertChecksum server.1 privsvrChecksum privsvrKey
  let pac ← insertFull isService privsvr.1 privsvrKey
  let pac ← writeFull isService (syncHeader pac) privsvrKey privsvr.2
  let pac ← writeChecksum pac serverChecksum serverKey server.2 pac.data
  let sc ← getBuffer pac serverChecksum
  writeChecksum pac privsvrChecksum privsvrKey privsvr.2 (sc.drop 4)

end

/-! ## Verification -/

def zeroSignature (pac : Pac) (ty : UInt32) (data : Bytes) : Except PacError Bytes :=
  match pac.buffers.find? (·.ty = ty) with
  | none => .error .noEntry
  | some b =>
    if b.size.toNat < 4 then .error .badMsize
    else .ok (overwrite data (b.offset + 4) (List.replicate (b.size.toNat - 4) 0))

def signatureLength (cksumtype : UInt32) : Except PacError Nat :=
  match checksumLength cksumtype with
  | some len => .ok len
  | none =>
    if cksumtype = 12 ∨ cksumtype = 0xffffff76 then .error .sumtypeNoSupp
    else .error (.generic "unkeyed PAC checksum type")

def compareChecksum (key : EncryptionKey) (cksumtype : UInt32) (data sum : Bytes) : Except PacError Unit :=
  match findCksumtype cksumtype with
  | none => .error .sumtypeNoSupp
  | some etype =>
    if etype ≠ key.keytype then .error .badEnctype
    else if Checksums.checksum etype key.keyBytes keyusageAppDataCksum data = .ok sum then .ok ()
    else .error .modified

def checkSignature (ty : UInt32) (key : EncryptionKey) (data buf : Bytes) : Except PacError Unit :=
  let cksumtype := le32 buf 0
  if buf.length < 4 then .error .badMsize
  else if ty = serverChecksum ∧ cksumtype = 14 then .error .sumtypeNoSupp
  else do
    let len ← signatureLength cksumtype
    if buf.length - 4 < len then .error .badMsize else compareChecksum key cksumtype data (slice buf 4 len)

def verifyChecksum (pac : Pac) (ty : UInt32) (key : EncryptionKey) (data : Bytes) : Except PacError Unit := do
  let buf ← getBuffer pac ty
  checkSignature ty key data buf

def verifyServer (pac : Pac) (server : Option EncryptionKey) (copy : Bytes) : Except PacError Unit :=
  match server with
  | some key => verifyChecksum pac serverChecksum key copy
  | none => .ok ()

def verifyFull (pac : Pac) (expectFull : Bool) (privsvr : Option EncryptionKey) (copy : Bytes) : Except PacError Unit :=
  match privsvr, expectFull with
  | some key, true => do
    let copy ← zeroSignature pac fullChecksum copy
    verifyChecksum pac fullChecksum key copy
  | _, _ => .ok ()

def signedPart (sc : Bytes) : Except PacError Bytes := if sc.length < 4 then .error .badMsize else .ok (sc.drop 4)

def verifyPrivsvr (pac : Pac) (privsvr : Option EncryptionKey) : Except PacError Unit :=
  match privsvr with
  | some key => do
    let sc ← getBuffer pac serverChecksum
    let part ← signedPart sc
    verifyChecksum pac privsvrChecksum key part
  | none => .ok ()

def verifyChecksums (pac : Pac) (expectFull : Bool) (server privsvr : Option EncryptionKey) : Except PacError Unit := do
  let copy ← zeroSignature pac serverChecksum pac.data
  let copy ← zeroSignature pac privsvrChecksum copy
  verifyServer pac server copy
  verifyFull pac expectFull privsvr copy
  verifyPrivsvr pac privsvr

section
variable [Alphabet]

def verifyKeys (pac : Pac) (server privsvr : Option EncryptionKey) : Except PacError Unit :=
  if server.isSome ∨ privsvr.isSome then verifyChecksums pac false server privsvr else .ok ()

def verifyClient (pac : Pac) (authtime : Int) (client : Option (PrincipalName × Str)) (withRealm : Bool) :
    Except PacError Unit :=
  match client with
  | some c => validateClient pac authtime c.1 c.2 withRealm
  | none => .ok ()

def verifyExt (pac : Pac) (authtime : Int) (client : Option (PrincipalName × Str)) (withRealm : Bool)
    (server privsvr : Option EncryptionKey) : Except PacError Unit := do
  verifyKeys pac server privsvr
  verifyClient pac authtime client withRealm

/-! ## Tickets -/

structure AuthData where
  adType : Int32
  adData : Bytes
deriving Repr, DecidableEq

structure EncTicketPart (ρ : Type) where
  rest : ρ
  authtime : Int
  authorizationData : Option (List AuthData)

/-- The DER of authorization data and of tickets; it decodes to what was encoded. -/
structure Der (ρ : Type) where
  encodeList : List AuthData → Except String Bytes
  decodeList : Bytes → Except String (List AuthData)
  encodeTicket : EncTicketPart ρ → Except String Bytes
  decode_encode : ∀ l bs, encodeList l = .ok bs → decodeList bs = .ok l

def shouldHaveTicketSignature (server : PrincipalName) : Bool :=
  match server.nameString.map (·.bytes) with
  | [a, b] => !(a = [107, 114, 98, 116, 103, 116] ∨
      a = [107, 97, 100, 109, 105, 110] ∧ b = [99, 104, 97, 110, 103, 101, 112, 119])
  | _ => true

variable {ρ : Type} (der : Der ρ)

def ifRelevant (list : List AuthData) : Except PacError AuthData :=
  match der.encodeList list with
  | .ok bs => .ok ⟨adIfRelevant, bs⟩
  | .error e => .error (.generic ("encoding authdata: " ++ e))

def pacElement (data : Bytes) : AuthData := ⟨adWin2kPac, data⟩

def encodeEncTkt (tkt : EncTicketPart ρ) : Except PacError Bytes :=
  match der.encodeTicket tkt with
  | .ok bs => .ok bs
  | .error e => .error (.generic ("encoding ticket: " ++ e))

def withFirst (tkt : EncTicketPart ρ) (el : AuthData) : EncTicketPart ρ :=
  { tkt with authorizationData := some (el :: tkt.authorizationData.getD []) }

def signTicketChecksum (isService : Bool) (pac : Pac) (privsvrKey : EncryptionKey) (tkt : EncTicketPart ρ) :
    Except PacError Pac :=
  if isService then do
    let bs ← encodeEncTkt der tkt
    let r ← insertChecksum pac ticketChecksum privsvrKey
    writeChecksum r.1 ticketChecksum privsvrKey r.2 bs
  else .ok pac

def kdcSignTicket (tkt : EncTicketPart ρ) (pac : Pac) (serverPrinc : PrincipalName)
    (client : Option (PrincipalName × Str)) (serverKey privsvrKey : EncryptionKey) (withRealm : Bool) :
    Except PacError (EncTicketPart ρ × Pac) := do
  let dummy ← ifRelevant der [pacElement [0]]
  let isService := shouldHaveTicketSignature serverPrinc
  let pac ← signTicketChecksum der isService pac privsvrKey (withFirst tkt dummy)
  let pac ← signPac pac tkt.authtime client serverKey privsvrKey withRealm isService
  let real ← ifRelevant der [pacElement pac.data]
  .ok (withFirst tkt real, pac)

def decodeIfRelevant (el : AuthData) : Except PacError (List AuthData) :=
  match der.decodeList el.adData with
  | .ok l => .ok l
  | .error e => .error (.generic ("decoding AD-IF-RELEVANT: " ++ e))

def findPac : List AuthData → Except PacError (Option (Nat × List AuthData × Nat))
  | [] => .ok none
  | el :: els => do
    if el.adType ≠ adIfRelevant then
      let r ← findPac els
      .ok (r.map fun (i, inner, j) => (i + 1, inner, j))
    else
      let inner ← decodeIfRelevant der el
      match inner.findIdx? (·.adType = adWin2kPac) with
      | some j => .ok (some (0, inner, j))
      | none =>
        let r ← findPac els
        .ok (r.map fun (i, inner, j) => (i + 1, inner, j))

def verifyTicketChecksum (isService : Bool) (pac : Pac) (privsvr : Option EncryptionKey) (tkt : EncTicketPart ρ)
    (authdata inner : List AuthData) (i j : Nat) : Except PacError Unit :=
  match privsvr, isService with
  | some key, true => do
    let el ← ifRelevant der (inner.set j (pacElement [0]))
    let bs ← encodeEncTkt der { tkt with authorizationData := some (authdata.set i el) }
    verifyChecksum pac ticketChecksum key bs
  | _, _ => .ok ()

def verifyFound (tkt : EncTicketPart ρ) (serverPrinc : PrincipalName) (server : EncryptionKey)
    (privsvr : Option EncryptionKey) (authdata : List AuthData) :
    Option (Nat × List AuthData × Nat) → Except PacError (Option Pac)
  | none => .ok none
  | some (i, inner, j) => do
    let pac ← parse ((inner[j]?.map (·.adData)).getD [])
    let isService := shouldHaveTicketSignature serverPrinc
    verifyTicketChecksum der isService pac privsvr tkt authdata inner i j
    verifyChecksums pac isService (some server) privsvr
    .ok (some pac)

def kdcVerifyTicket (tkt : EncTicketPart ρ) (serverPrinc : PrincipalName) (server : EncryptionKey)
    (privsvr : Option EncryptionKey) : Except PacError (Option Pac) :=
  match tkt.authorizationData with
  | none => .ok none
  | some authdata => do
    let found ← findPac der authdata
    verifyFound der tkt serverPrinc server privsvr authdata found

end

end

end Pac

end Krb5Rs
