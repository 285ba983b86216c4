import Krb5Rs.AuthData
import Krb5Rs.S4u

/-!
# The client's exchange with the ticket-granting service

`TgsExchange` of `protocol/tgs_exchange` in its ordinary mode, with the FAST
state of `protocol/fast.rs` and the reply helpers of `protocol/kdc_rep.rs`. A
call of `step` draws its random numbers and reads the clock through `Draw`. DER
and the algorithms of the encryption types are parameters. Times are in
nanoseconds.
-/

namespace Krb5Rs

open Wire (Bytes)
open Utf8 (Str)
open Flags
open Pac (AuthData Checksums checksumType)
open Authdata (EncryptedData Checksum tgsReqAdSubkey)
open Stateful (lift)

namespace KdcOptions

abbrev canonicalize : UInt32 := bit 16

end KdcOptions

inductive Krb5Error
  | kdcError (code : Int32)
  | replyValidation (text : String)
  | decryptionFailed
  | clockSkew (maxSkew : Nat)
  | referralLoop (realm : Str)
  | referralLimitExceeded (hops : Nat)
  | fastRequired
  | unsupportedEtype (etype : Int32)
  | asn1
  | crypto (text : String)
deriving DecidableEq

/-! ## Messages -/

structure HostAddress where
  addrType : Int32
  address : Bytes
deriving DecidableEq

section
variable [Alphabet]

structure Ticket where
  tktVno : Int32
  realm : GeneralString
  sname : PrincipalName
  encPart : EncryptedData
deriving DecidableEq

structure KdcRep where
  pvno : Int32
  msgType : Int32
  padata : Option (List PaData)
  crealm : GeneralString
  cname : PrincipalName
  ticket : Ticket
  encPart : EncryptedData
deriving DecidableEq

structure EncKdcRepPart where
  key : EncryptionKey
  nonce : UInt32
  flags : UInt32
  authtime : Int
  starttime : Option Int
  endtime : Int
  renewTill : Option Int
  srealm : GeneralString
  sname : PrincipalName
  caddr : Option (List HostAddress)
deriving DecidableEq

structure KrbErrorMsg where
  pvno : Int32
  msgType : Int32
  errorCode : Int32
  eData : Option Bytes
deriving DecidableEq

structure TicketTimes where
  authtime : Int
  starttime : Option Int
  endtime : Int
  renewTill : Option Int
deriving DecidableEq

structure Credential where
  client : PrincipalName
  crealm : Str
  server : PrincipalName
  srealm : Str
  sessionKey : EncryptionKey
  times : TicketTimes
  ticket : Ticket
  flags : UInt32
  addresses : Option (List HostAddress)
  authdata : Option (List AuthData)
deriving DecidableEq

structure KdcReqBody where
  kdcOptions : UInt32
  realm : GeneralString
  sname : PrincipalName
  till : Int
  nonce : UInt32
  etype : List Int32
  encAuthorizationData : Option EncryptedData
  additionalTickets : Option (List Ticket)
deriving DecidableEq

structure TgsReq where
  body : KdcReqBody
  der : Bytes
deriving DecidableEq

structure KrbFastFinished where
  crealm : GeneralString
  cname : PrincipalName
  ticketChecksum : Checksum

structure KrbFastResponse where
  padata : List PaData
  strengthenKey : Option EncryptionKey
  finished : Option KrbFastFinished
  nonce : UInt32

/-- The DER of the messages. `paTgsReq` and `prepReq` are the ticket with its authenticator and the
armored request; `seed` is what they draw. -/
class TgsDer where
  tgsRep : Bytes → Option KdcRep
  krbError : Bytes → Option KrbErrorMsg
  encTgsRepPart : Bytes → Option EncKdcRepPart
  encKdcRepPart : Bytes → Option EncKdcRepPart
  methodData : Bytes → Option (List PaData)
  /-- The ciphertext of a PA-FX-FAST reply. -/
  paFxFastReply : Bytes → Option Bytes
  krbFastResponse : Bytes → Option KrbFastResponse
  ticket : Ticket → Option Bytes
  authorizationData : List AuthData → Option Bytes
  kdcReqBody : KdcReqBody → Option Bytes
  paTgsReq : Credential → EncryptionKey → Bytes → Bytes → Except Krb5Error Bytes
  prepReq : EncryptionKey → KdcReqBody → Bytes → Bool → Bytes → Except Krb5Error Bytes

end

/-- Making keys: `random_to_key` of an encryption type, and `fx_cf2`. -/
class KeyDerivation where
  randomToKey : Int32 → Bytes → Except String Bytes
  fxCf2 : EncryptionKey → String → EncryptionKey → String → Except String EncryptionKey

def okOr {α : Type} (o : Option α) (e : Krb5Error) : Except Krb5Error α :=
  match o with
  | some a => .ok a
  | none => .error e

def cryptoError {α : Type} (r : Except String α) : Except Krb5Error α :=
  match r with
  | .ok a => .ok a
  | .error text => .error (.crypto text)

/-! ## FAST -/

structure FastState where
  armorKey : Option EncryptionKey
  nonce : UInt32
deriving DecidableEq

namespace FastState

def fxFast : Int32 := 136
def fxError : Int32 := 137
def fastRep : UInt32 := 52
def fastFinished : Int32 := 53

def new : FastState := ⟨none, 0⟩

def tgsArmor [KeyDerivation] (subkey session : EncryptionKey) : Except Krb5Error EncryptionKey :=
  cryptoError (KeyDerivation.fxCf2 subkey "subkeyarmor" session "ticketarmor")

def replyKey [KeyDerivation] (strengthen : Option EncryptionKey) (existing : EncryptionKey) :
    Except Krb5Error EncryptionKey :=
  match strengthen with
  | some s => cryptoError (KeyDerivation.fxCf2 s "strengthenkey" existing "replykey")
  | none => .ok existing

section
variable [Alphabet] [TgsDer] [Crypto]

def echoed (fast : FastState) (resp : KrbFastResponse) : Except Krb5Error KrbFastResponse :=
  if resp.nonce = fast.nonce then .ok resp else .error (.replyValidation "nonce modified in FAST response")

def decryptFastResponse (fast : FastState) (fxPa : PaData) (armorKey : EncryptionKey) :
    Except Krb5Error KrbFastResponse := do
  let cipher ← okOr (TgsDer.paFxFastReply fxPa.padataValue) .asn1
  let profile ← okOr (Crypto.findEtype armorKey.keytype) (.crypto "unsupported encryption type")
  let plain ← okOr (profile.decrypt armorKey.keyBytes fastRep cipher).toOption .decryptionFailed
  let resp ← okOr (TgsDer.krbFastResponse plain) .asn1
  fast.echoed resp

def errorResponse (fast : FastState) (err : KrbErrorMsg) (armorKey : EncryptionKey) :
    Except Krb5Error KrbFastResponse := do
  let methodData ← okOr (TgsDer.methodData (err.eData.getD [])) .asn1
  let fxPa ← okOr (methodData.find? (·.padataType = fxFast)) .fastRequired
  fast.decryptFastResponse fxPa armorKey

def innerError (resp : KrbFastResponse) : Except Krb5Error KrbErrorMsg := do
  let fxErrorPa ← okOr (resp.padata.find? (·.padataType = fxError))
    (.replyValidation "Expecting FX_ERROR pa-data inside FAST container")
  okOr (TgsDer.krbError fxErrorPa.padataValue) .asn1

/-- The error that drives the handling: of a KDC that does not understand FAST, the outer one. -/
def processError (fast : FastState) (err : KrbErrorMsg) : Except Krb5Error KrbErrorMsg :=
  match fast.armorKey with
  | none => .ok err
  | some armorKey =>
    match fast.errorResponse err armorKey with
    | .ok resp => innerError resp
    | .error _ => .ok err

end

structure ResponseOut [Alphabet] where
  client : PrincipalName
  crealm : GeneralString
  strengthenKey : Option EncryptionKey
  padata : List PaData

section
variable [Alphabet] [TgsDer] [Crypto] [Checksums]

def ticketModified : Krb5Error := .replyValidation "Ticket modified in KDC reply"

def verifyFinished (armorKey : EncryptionKey) (ticketDer : Bytes) (sum : Checksum) : Except Krb5Error Unit :=
  if (checksumType armorKey.keytype).map (·.toInt32) = some sum.cksumtype ∧
      (Checksums.checksum armorKey.keytype armorKey.keyBytes fastFinished ticketDer).toOption = some sum.checksum then
    .ok ()
  else .error ticketModified

/-- The response of an armored request; `none` when it was not armored. -/
def processResponse (fast : FastState) (repPadata : Option (List PaData)) (ticket : Ticket) :
    Except Krb5Error (Option ResponseOut) :=
  match fast.armorKey with
  | none => .ok none
  | some armorKey => do
    let fxPa ← okOr ((repPadata.getD []).find? (·.padataType = fxFast)) .fastRequired
    let resp ← fast.decryptFastResponse fxPa armorKey
    let finished ← okOr resp.finished (.replyValidation "FAST response missing finish message")
    let ticketDer ← okOr (TgsDer.ticket ticket) .asn1
    verifyFinished armorKey ticketDer finished.ticketChecksum
    .ok (some ⟨finished.cname, finished.crealm, resp.strengthenKey, resp.padata⟩)

end

end FastState

/-! ## Replies -/

section
variable [Alphabet]

def krbtgt : Bytes := [107, 114, 98, 116, 103, 116]

/-- The second component of a name of two whose first is `krbtgt`. -/
def tgsInstance (name : PrincipalName) : Option GeneralString :=
  match name.nameString with
  | [service, inst] => if service.bytes = krbtgt then some inst else none
  | _ => none

def isTgsPrincipal (name : PrincipalName) : Bool := (tgsInstance name).isSome

def credentialFromRep (rep : KdcRep) (encPart : EncKdcRepPart) : Credential where
  client := rep.cname
  crealm := Utf8.lossyStr rep.crealm.bytes
  server := encPart.sname
  srealm := Utf8.lossyStr encPart.srealm.bytes
  sessionKey := encPart.key
  times := ⟨encPart.authtime, encPart.starttime, encPart.endtime, encPart.renewTill⟩
  ticket := rep.ticket
  flags := encPart.flags
  addresses := encPart.caddr
  authdata := none

variable [TgsDer]

def decodeKrbError (bytes : Bytes) : Except Krb5Error KrbErrorMsg :=
  match TgsDer.krbError bytes with
  | none => .error .asn1
  | some err =>
    if err.pvno ≠ 5 ∨ err.msgType ≠ 30 then .error (.replyValidation "invalid KRB-ERROR pvno/msg_type") else .ok err

def decodeEncTgsRepPart (plaintext : Bytes) : Except Krb5Error EncKdcRepPart :=
  okOr ((TgsDer.encTgsRepPart plaintext).or (TgsDer.encKdcRepPart plaintext)) .asn1

/-- The first key whose plaintext decodes wins; the last error stands otherwise. -/
def tryReplyKeys (profile : EtypeProfile) (cipher : Bytes) (lastErr : Krb5Error) :
    List (EncryptionKey × UInt32) → Except Krb5Error EncKdcRepPart
  | [] => .error lastErr
  | (key, usage) :: rest =>
    match profile.decrypt key.keyBytes usage cipher with
    | .error _ => tryReplyKeys profile cipher .decryptionFailed rest
    | .ok plaintext =>
      match decodeEncTgsRepPart plaintext with
      | .ok part => .ok part
      | .error e => tryReplyKeys profile cipher e rest

def decryptEncKdcRepPart [Crypto] (keyUsages : List (EncryptionKey × UInt32)) (encPart : EncryptedData) :
    Except Krb5Error EncKdcRepPart :=
  match Crypto.findEtype encPart.etype with
  | none => .error (.unsupportedEtype encPart.etype)
  | some profile => tryReplyKeys profile encPart.cipher .decryptionFailed keyUsages

end

/-! ## The exchange -/

structure TgsOptions where
  canonicalize : Bool
  forwardable : Bool
  renewable : Bool
  etypes : List Int32
  maxClockSkew : Nat
  pacOptions : Bool
  disableTransitedCheck : Bool
deriving DecidableEq

/-- How the reply awaited is to be processed. -/
inductive ResumeState
  | referrals (realmsSeen : List Str) (referralCount : Nat)
  | nonReferral
deriving DecidableEq

inductive TgsState
  | begin
  | awaitReply (resume : ResumeState)
  | complete
deriving DecidableEq

section
variable [Alphabet]

structure TgsExchange where
  state : TgsState
  curTgt : Credential
  targetServer : PrincipalName
  options : TgsOptions
  subkey : Option EncryptionKey
  nonce : UInt32
  lastReq : Option TgsReq
  lastRealm : Str
  credential : Option Credential
  firstReferralAttempt : Bool
  fastState : FastState
  authdata : Option (List AuthData)
  enctype : Option Int32
  u2uTicket : Option Ticket
deriving DecidableEq

inductive TgsStepResult
  | sendToKdc (data : TgsReq) (realm : Str)
  /-- No data stands for the empty request, which no exchange sends. -/
  | retryTcp (data : Option TgsReq) (realm : Str)
  | complete
deriving DecidableEq

end

structure Draw where
  random : UInt32
  keySeed : Bytes
  seed : Bytes
  now : Int
deriving DecidableEq

namespace TgsExchange

def maxReferralHops : Nat := 10
def sPrincipalUnknown : Int32 := 7
def responseTooBig : Int32 := 52
def tgsRepEncpartSesskey : UInt32 := 8
def tgsRepEncpartSubkey : UInt32 := 9

def lifetime : Int := 36000 * 1000000000

section
variable [Alphabet]

def new (tgt : Credential) (target : PrincipalName) (options : TgsOptions) : TgsExchange where
  state := .begin
  curTgt := tgt
  targetServer := target
  options := options
  subkey := none
  nonce := 0
  lastReq := none
  lastRealm := Utf8.lossyStr []
  credential := none
  firstReferralAttempt := true
  fastState := .new
  authdata := none
  enctype := none
  u2uTicket := none

def withSecondTicket (x : TgsExchange) (ticket : Option Ticket) : TgsExchange := { x with u2uTicket := ticket }

def withEnctype (x : TgsExchange) (enctype : Int32) : TgsExchange :=
  { x with enctype := if enctype ≠ 0 then some enctype else none }

def withAuthdata (x : TgsExchange) (authdata : Option (List AuthData)) : TgsExchange :=
  { x with authdata := authdata.filter fun a => !a.isEmpty }

def tgtTargetRealm (x : TgsExchange) : Str :=
  match tgsInstance x.curTgt.server with
  | some inst => Utf8.lossyStr inst.bytes
  | none => x.curTgt.srealm

def isReferralTgt (x : TgsExchange) (encPart : EncKdcRepPart) : Bool :=
  isTgsPrincipal encPart.sname && encPart.sname.nameString ≠ x.targetServer.nameString

def tooFarAhead (x : TgsExchange) (encPart : EncKdcRepPart) (now : Int) : Bool :=
  now + x.options.maxClockSkew < encPart.starttime.getD encPart.authtime

def validateTgsReply (x : TgsExchange) (rep : KdcRep) (encPart : EncKdcRepPart) (now : Int) :
    Except Krb5Error Unit :=
  if rep.cname ≠ x.curTgt.client then .error (.replyValidation "client principal mismatch")
  else if rep.crealm.bytes ≠ x.curTgt.crealm.bytes then .error (.replyValidation "client realm mismatch")
  else if encPart.nonce ≠ x.nonce then .error (.replyValidation "nonce mismatch")
  else if rep.ticket.sname ≠ encPart.sname then .error (.replyValidation "ticket/enc-part server mismatch")
  else if rep.ticket.realm ≠ encPart.srealm then .error (.replyValidation "ticket/enc-part realm mismatch")
  else if !x.isReferralTgt encPart ∧ !x.options.canonicalize ∧
      encPart.sname.nameString ≠ x.targetServer.nameString then
    .error (.replyValidation "unexpected service principal in TGS-REP")
  else if x.tooFarAhead encPart now then .error (.clockSkew x.options.maxClockSkew)
  else .ok ()

def kdcOptions (x : TgsExchange) (canonicalize : Bool) : UInt32 :=
  (if x.options.renewable then KdcOptions.renewable else 0) |||
    (if x.options.forwardable then KdcOptions.forwardable else 0) |||
    (if canonicalize then KdcOptions.canonicalize else 0) |||
    (if x.options.disableTransitedCheck then KdcOptions.disableTransitedCheck else 0) |||
    (if x.u2uTicket.isSome then KdcOptions.encTktInSkey else 0)

def adoptedFlags (x : TgsExchange) (encPart : EncKdcRepPart) : UInt32 :=
  if contains x.curTgt.flags TicketFlags.okAsDelegate then encPart.flags
  else encPart.flags &&& remove TicketFlags.all TicketFlags.okAsDelegate

def adopt (x : TgsExchange) (rep : KdcRep) (encPart : EncKdcRepPart) : TgsExchange :=
  { x with
    curTgt := { credentialFromRep rep encPart with flags := x.adoptedFlags encPart }
    authdata := none }

/-- The count and the realms of the requests with the referral, unless there are too many or it leads back. -/
def nextHop (resume : ResumeState) (realm : Str) : Except Krb5Error ResumeState :=
  match resume with
  | .nonReferral => .error (.replyValidation "unexpected referral in non-referral mode")
  | .referrals realmsSeen referralCount =>
    if maxReferralHops < referralCount + 1 then .error (.referralLimitExceeded maxReferralHops)
    else if realm ∈ realmsSeen then .error (.referralLoop realm)
    else .ok (.referrals (realmsSeen ++ [realm]) (referralCount + 1))

variable [TgsDer] [Crypto] [KeyDerivation]

/-! ### Building a request -/

def newSubkey (etype : Int32) (keySeed : Bytes) : Except Krb5Error EncryptionKey :=
  match Crypto.findEtype etype with
  | none => .error (.unsupportedEtype etype)
  | some _ => (cryptoError (KeyDerivation.randomToKey etype keySeed)).map (⟨etype, ·⟩)

def encAuthorizationData (x : TgsExchange) (subkey : EncryptionKey) (seed : Bytes) :
    Except Krb5Error (Option EncryptedData) :=
  match x.authdata with
  | none => .ok none
  | some ad => do
    let profile ← okOr (Crypto.findEtype subkey.keytype) (.unsupportedEtype subkey.keytype)
    let plain ← okOr (TgsDer.authorizationData ad) .asn1
    let cipher ← cryptoError (profile.encrypt subkey.keyBytes tgsReqAdSubkey seed plain)
    .ok (some ⟨subkey.keytype, cipher⟩)

def reqBody (x : TgsExchange) (subkey : EncryptionKey) (draw : Draw) (canonicalize : Bool) :
    Except Krb5Error KdcReqBody := do
  let realm ← okOr (GeneralString.fromBytes x.tgtTargetRealm.bytes) (.replyValidation "invalid realm string")
  let encAuthorizationData ← x.encAuthorizationData subkey draw.seed
  .ok {
    kdcOptions := x.kdcOptions canonicalize
    realm
    sname := x.targetServer
    till := draw.now + lifetime
    nonce := x.nonce
    etype := x.enctype.elim x.options.etypes fun e => [e]
    encAuthorizationData
    additionalTickets := x.u2uTicket.map fun t => [t] }

def buildTgsReq (draw : Draw) (canonicalize : Bool) : EStateM Krb5Error TgsExchange TgsReq := do
  modify fun x => { x with nonce := draw.random &&& 0x7fffffff }
  let x ← get
  let subkey ← lift (newSubkey x.curTgt.sessionKey.keytype draw.keySeed)
  modify fun x => { x with subkey := some subkey }
  let body ← lift (x.reqBody subkey draw canonicalize)
  let bodyDer ← lift (okOr (TgsDer.kdcReqBody body) .asn1)
  modify fun x => { x with fastState := .new }
  let armorKey ← lift (FastState.tgsArmor subkey x.curTgt.sessionKey)
  modify fun x => { x with fastState := ⟨some armorKey, 0⟩ }
  let apReq ← lift (TgsDer.paTgsReq x.curTgt subkey bodyDer draw.seed)
  modify fun x => { x with fastState := ⟨some armorKey, body.nonce⟩ }
  let der ← lift (TgsDer.prepReq armorKey body apReq x.options.pacOptions draw.seed)
  modify fun x => { x with lastReq := some ⟨body, der⟩ }
  pure ⟨body, der⟩

def sendRequest (draw : Draw) (canonicalize : Bool) (resume : ResumeState) (realm : Str) :
    EStateM Krb5Error TgsExchange TgsStepResult := do
  let data ← buildTgsReq draw canonicalize
  modify fun x => { x with state := .awaitReply resume, lastRealm := realm }
  pure (.sendToKdc data realm)

/-! ### Steps -/

def begin (draw : Draw) : EStateM Krb5Error TgsExchange TgsStepResult := do
  let x ← get
  let realm := x.tgtTargetRealm
  sendRequest draw x.options.canonicalize
    (if x.options.canonicalize then .referrals [realm] 0 else .nonReferral) realm

def handleReferral (rep : KdcRep) (encPart : EncKdcRepPart) (resume : ResumeState) (inst : GeneralString)
    (draw : Draw) : EStateM Krb5Error TgsExchange TgsStepResult := do
  let realm := Utf8.lossyStr inst.bytes
  let next ← lift (nextHop resume realm)
  modify fun x => x.adopt rep encPart
  sendRequest draw true next realm

def decryptTgsRepEncPart (x : TgsExchange) (rep : KdcRep) (strengthen : Option EncryptionKey) :
    Except Krb5Error EncKdcRepPart := do
  let subkeys ← match x.subkey with
    | none => .ok []
    | some subkey => (FastState.replyKey strengthen subkey).map fun k => [(k, tgsRepEncpartSubkey)]
  let session ← FastState.replyKey strengthen x.curTgt.sessionKey
  decryptEncKdcRepPart (subkeys ++ [(session, tgsRepEncpartSesskey)]) rep.encPart

variable [Checksums]

def unarmored (x : TgsExchange) (rep : KdcRep) : Except Krb5Error (KdcRep × Option EncryptionKey) :=
  match x.fastState.processResponse rep.padata rep.ticket with
  | .ok (some out) =>
    .ok ({ rep with
      cname := out.client
      crealm := out.crealm
      padata := if out.padata = [] then none else some out.padata }, out.strengthenKey)
  | .ok none => .ok (rep, none)
  | .error .fastRequired => .ok (rep, none)
  | .error e => .error e

/-- The part of `process_tgs_rep` that only reads the exchange: a reply decrypted and validated. -/
def readTgsRep (x : TgsExchange) (rep : KdcRep) (now : Int) : Except Krb5Error (KdcRep × EncKdcRepPart) := do
  let r ← x.unarmored rep
  let encPart ← x.decryptTgsRepEncPart r.1 r.2
  x.validateTgsReply r.1 encPart now
  .ok (r.1, encPart)

def finish (rep : KdcRep) (encPart : EncKdcRepPart) : EStateM Krb5Error TgsExchange TgsStepResult := do
  modify fun x => { x with credential := some (credentialFromRep rep encPart), state := .complete }
  pure .complete

def referralInstance (x : TgsExchange) (encPart : EncKdcRepPart) : Option GeneralString :=
  if x.isReferralTgt encPart then tgsInstance encPart.sname else none

def processTgsRep (tgsRep : KdcRep) (resume : ResumeState) (draw : Draw) :
    EStateM Krb5Error TgsExchange TgsStepResult := do
  let x ← get
  let r ← lift (x.readTgsRep tgsRep draw.now)
  match x.referralInstance r.2 with
  | some inst => handleReferral r.1 r.2 resume inst draw
  | none => finish r.1 r.2

def processRep (tgsRep : KdcRep) (resume : ResumeState) (draw : Draw) :
    EStateM Krb5Error TgsExchange TgsStepResult :=
  if tgsRep.pvno ≠ 5 ∨ tgsRep.msgType ≠ 13 then throw (.replyValidation "invalid TGS-REP pvno/msg_type")
  else do
    let step ← processTgsRep tgsRep resume draw
    -- the fallback is lost only once a reply was accepted
    modify fun x => { x with firstReferralAttempt := false }
    pure step

def fallBack (draw : Draw) : EStateM Krb5Error TgsExchange TgsStepResult := do
  modify fun x => { x with firstReferralAttempt := false }
  let x ← get
  sendRequest draw false .nonReferral x.tgtTargetRealm

def processKrbError (err : KrbErrorMsg) (resume : ResumeState) (draw : Draw) :
    EStateM Krb5Error TgsExchange TgsStepResult := do
  let x ← get
  if err.errorCode = responseTooBig then pure (.retryTcp x.lastReq x.lastRealm)
  else if err.errorCode = sPrincipalUnknown ∧ x.firstReferralAttempt ∧ resume ≠ .nonReferral then fallBack draw
  else throw (.kdcError err.errorCode)

def processReply (kdcReply : Bytes) (resume : ResumeState) (draw : Draw) :
    EStateM Krb5Error TgsExchange TgsStepResult :=
  if kdcReply = [] then throw (.replyValidation "empty KDC reply")
  else
    match TgsDer.tgsRep kdcReply with
    | some tgsRep => processRep tgsRep resume draw
    | none => do
      let outer ← lift (decodeKrbError kdcReply)
      let x ← get
      let err ← lift (x.fastState.processError outer)
      processKrbError err resume draw

def step (kdcReply : Bytes) (draw : Draw) : EStateM Krb5Error TgsExchange TgsStepResult := do
  let x ← get
  match x.state with
  | .begin => begin draw
  | .awaitReply resume => processReply kdcReply resume draw
  | .complete => pure .complete

end

end TgsExchange

end Krb5Rs
