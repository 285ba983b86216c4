import Krb5Rs.KeySelect
import Krb5Rs.Pac
import Krb5Rs.TicketPolicy

/-!
# Authorization data of a TGS ticket

`kdc/authdata.rs` and `kdc/cammac.rs`: what a ticket takes over from the request
and from the header ticket, the authentication indicators in a CAMMAC, and the
PAC put in front. The DER of each type is a parameter, `TicketDer`; so is the NDR
of delegation information.
-/

namespace Krb5Rs

open Wire (Bytes)
open Utf8 (Str)
open Pac (AuthData EncTicketPart Der adIfRelevant adWin2kPac)

abbrev PrincipalAttributes.noAuthDataRequired : UInt32 := Flags.bit 22

namespace Authdata

def adMandatoryForKdc : Int32 := 8
def adKdcIssued : Int32 := 4
def adCammac : Int32 := 96
def adAuthIndicator : Int32 := 97
def adSignticket : Int32 := 512
def tgsReqAdSesskey : UInt32 := 4
def tgsReqAdSubkey : UInt32 := 5
def keyusageCammac : Int32 := 64
def pacDelegationInfo : UInt32 := 11

def generic (status : String) : KdcError := ⟨60, status⟩

/-! ## Encodings -/

structure Checksum where
  cksumtype : Int32
  checksum : Bytes
deriving Repr, DecidableEq

def weight : List AuthData → Nat
  | [] => 0
  | el :: els => el.adData.length + 1 + weight els

section
variable [Alphabet]

structure VerifierMac where
  identifier : Option PrincipalName
  kvno : Option UInt32
  enctype : Option Int32
  mac : Checksum

structure Cammac where
  elements : List AuthData
  kdcVerifier : Option VerifierMac
  svcVerifier : Option VerifierMac
  otherVerifiers : Option (List VerifierMac)

structure TicketBody (σ : Type) where
  flags : UInt32
  crealm : GeneralString
  cname : PrincipalName
  rest : σ

structure TicketDer (σ : Type) extends Der (TicketBody σ) where
  weight_le : ∀ bs l, decodeList bs = .ok l → weight l ≤ bs.length
  encodeCammac : Cammac → Except String Bytes
  decodeCammac : Bytes → Except String Cammac
  encodeStrings : List Str → Except String Bytes
  decodeStrings : Bytes → Except String (List Str)

structure DelegationInfo where
  proxyTarget : List Char
  transitedServices : List (List Char)

structure Ndr where
  decode : Bytes → Except PacError DelegationInfo
  encode : DelegationInfo → Bytes

def encoded {α : Type} : Except String α → Except KdcError α
  | .ok a => .ok a
  | .error _ => .error (generic "ENCODE_FAILURE")

variable {σ : Type} (der : TicketDer σ)

/-! ## The filter -/

def isKdcIssuedType (ty : Int32) : Bool := ty ∈ [adSignticket, adKdcIssued, adWin2kPac, adCammac, adAuthIndicator]

def isKdcIssued (el : AuthData) : Bool :=
  if el.adType = adIfRelevant then
    match der.decodeList el.adData with
    | .ok inner => inner.any fun e => isKdcIssuedType e.adType
    | .error _ => false
  else isKdcIssuedType el.adType

def filtered (list : List AuthData) : List AuthData := list.filter fun el => !isKdcIssued der el

def hasMandatoryForKdc (list : List AuthData) : Bool := list.any fun el => el.adType = adMandatoryForKdc

/-! ## Authentication indicators -/

def findAuthdata (ty : Int32) : List AuthData → List Bytes
  | [] => []
  | el :: els =>
    if el.adType = ty then el.adData :: findAuthdata ty els
    else if el.adType = adIfRelevant then
      match _h : der.decodeList el.adData with
      | .ok inner => findAuthdata ty inner ++ findAuthdata ty els
      | .error _ => findAuthdata ty els
    else findAuthdata ty els
termination_by list => weight list
decreasing_by
  all_goals simp only [weight]
  case _ => omega
  case _ =>
    have := der.weight_le _ _ _h
    omega
  all_goals omega

section
variable [Pac.Checksums]

def checksum (key : EncryptionKey) (data : Bytes) : Except KdcError Checksum :=
  match Pac.checksumType key.keytype with
  | none => .error (generic "CAMMAC")
  | some cksumtype =>
    match Pac.Checksums.checksum key.keytype key.keyBytes keyusageCammac data with
    | .error _ => .error (generic "CAMMAC")
    | .ok mac => .ok ⟨cksumtype.toInt32, mac⟩

def kdcverEncpart (part : EncTicketPart (TicketBody σ)) (elements : List AuthData) : Except KdcError Bytes :=
  encoded (der.encodeTicket { part with authorizationData := some elements })

def tgtKey (tgt : PrincipalEntry) (kvno : KvnoSel) : Option KeyEntry :=
  tgt.findKey none kvno fun etype => (Pac.checksumType etype).isSome

def push (part : EncTicketPart (TicketBody σ)) (el : AuthData) : EncTicketPart (TicketBody σ) :=
  { part with authorizationData := some (part.authorizationData.getD [] ++ [el]) }

def signingKey (localTgt : PrincipalEntry) : Except KdcError KeyEntry :=
  match tgtKey localTgt .highest with
  | some key => .ok key
  | none => .error (generic "CAMMAC")

def addAuthIndicators (part : EncTicketPart (TicketBody σ)) (indicators : List Str) (serverKey : EncryptionKey)
    (localTgt : PrincipalEntry) : Except KdcError (EncTicketPart (TicketBody σ)) :=
  if indicators = [] then .ok part
  else do
    let strings ← encoded (der.encodeStrings indicators)
    let contents : List AuthData := [⟨adAuthIndicator, strings⟩]
    let key ← signingKey localTgt
    let encpart ← kdcverEncpart der part contents
    let kdcMac ← checksum key.key encpart
    let list ← encoded (der.encodeList contents)
    let svcMac ← checksum serverKey list
    let cammac ← encoded (der.encodeCammac
      { elements := contents
        kdcVerifier := some ⟨none, some key.kvno, none, kdcMac⟩
        svcVerifier := some ⟨none, none, none, svcMac⟩
        otherVerifiers := none })
    let inner ← encoded (der.encodeList [⟨adCammac, cammac⟩])
    .ok (push part ⟨adIfRelevant, inner⟩)

def verifierSel (ver : VerifierMac) : KvnoSel :=
  match ver.kvno with
  | some kvno => .exact kvno
  | none => .highest

def kdcVerified (part : EncTicketPart (TicketBody σ)) (localTgt : PrincipalEntry) (cammac : Cammac) : Bool :=
  match cammac.kdcVerifier with
  | none => false
  | some ver =>
    match tgtKey localTgt (verifierSel ver) with
    | none => false
    | some key =>
      if ver.enctype.any (· ≠ key.key.keytype) then false
      else
        match kdcverEncpart der part cammac.elements with
        | .error _ => false
        | .ok data =>
          match checksum key.key data with
          | .error _ => false
          | .ok want => want = ver.mac

def indicatorStrings (elements : List AuthData) : List Str :=
  (findAuthdata der adAuthIndicator elements).flatMap fun d =>
    match der.decodeStrings d with
    | .ok list => list
    | .error _ => []

def cammacIndicators (part : EncTicketPart (TicketBody σ)) (localTgt : PrincipalEntry) (bs : Bytes) : List Str :=
  match der.decodeCammac bs with
  | .error _ => []
  | .ok cammac => if kdcVerified der part localTgt cammac then indicatorStrings der cammac.elements else []

def addNew (out : List Str) (s : Str) : List Str := if s ∈ out then out else out ++ [s]

def getAuthIndicators (part : EncTicketPart (TicketBody σ)) (localTgt : PrincipalEntry) : List Str :=
  ((findAuthdata der adCammac (part.authorizationData.getD [])).flatMap
    (cammacIndicators der part localTgt)).foldl addNew []

end

/-! ## What is taken over -/

structure EncryptedData where
  etype : Int32
  cipher : Bytes
deriving Repr, DecidableEq

def handleAuthdata : String := "HANDLE_AUTHDATA"

section
variable [Crypto]

def tryKey (profile : EtypeProfile) (enc : EncryptedData) (key : EncryptionKey) (usage : UInt32) : Option Bytes :=
  if key.keytype = enc.etype then (profile.decrypt key.keyBytes usage enc.cipher).toOption else none

def decryptRequestAuthdata (enc : EncryptedData) (session : EncryptionKey) (subkey : Option EncryptionKey) :
    Except KdcError (List AuthData) :=
  match Crypto.findEtype enc.etype with
  | none => .error ⟨14, handleAuthdata⟩
  | some profile =>
    match (tryKey profile enc session tgsReqAdSesskey).or
        (subkey.bind fun k => tryKey profile enc k tgsReqAdSubkey) with
    | none => .error ⟨31, handleAuthdata⟩
    | some plain =>
      match der.decodeList plain with
      | .ok list => .ok list
      | .error _ => .error (generic handleAuthdata)

def copied (list : List AuthData) : Except KdcError (List AuthData) :=
  if hasMandatoryForKdc list then .error ⟨12, handleAuthdata⟩ else .ok (filtered der list)

structure RequestAuthdata where
  enc : EncryptedData
  session : EncryptionKey
  subkey : Option EncryptionKey

def copyRequest : Option RequestAuthdata → Except KdcError (List AuthData)
  | none => .ok []
  | some r => do
    let decoded ← decryptRequestAuthdata der r.enc r.session r.subkey
    copied der decoded

def copySubject (subjectTkt : EncTicketPart (TicketBody σ)) : Except KdcError (List AuthData) :=
  match subjectTkt.authorizationData with
  | none => .ok []
  | some list => copied der list

end

/-! ## The PAC -/

inductive S4uPac
  | none
  | selfReq (referralSubject : Option (PrincipalName × Str))
  | proxy (target : PrincipalName) (impersonator : List Char) (crossrealm : Bool)
      (referralSubject : Option (PrincipalName × Str))

def kdcCode : PacError → Int32
  | .modified => 41
  | .sumtypeNoSupp => 15
  | _ => 60

def pacFailure {α : Type} : Except PacError α → Except KdcError α
  | .ok a => .ok a
  | .error e => .error ⟨kdcCode e, handleAuthdata⟩

structure KdcConfig where
  disablePac : Bool
  permitted : Int32 → Bool

def privsvrKey (config : KdcConfig) (localTgt : PrincipalEntry) : Except KdcError EncryptionKey :=
  match localTgt.findKey .none .highest config.permitted with
  | some key => .ok key.key
  | none => .error (generic "GET_LOCAL_TGT")

def proxyTargetString (name : PrincipalName) : List Char := Pac.unparseName name ⟨[], rfl⟩ true false

/-- The delegation information to extend: none yet is an empty one. -/
def previousDelegation (ndr : Ndr) (subject : Pac) : Except KdcError DelegationInfo :=
  match subject.getBuffer pacDelegationInfo with
  | .ok d => pacFailure (ndr.decode d)
  | .error .noEntry => .ok ⟨[], []⟩
  | .error e => pacFailure (.error e)

def copyDelegation (subject : Pac) : Except KdcError Pac :=
  match subject.getBuffer pacDelegationInfo with
  | .ok d => pacFailure (Pac.new.addBuffer pacDelegationInfo d)
  | .error .noEntry => .ok Pac.new
  | .error e => pacFailure (.error e)

/-- A new PAC with the delegation information: extended for a final S4U2Proxy request of this realm. -/
def delegationPac (ndr : Ndr) (subject : Pac) : S4uPac → Except KdcError Pac
  | .proxy target impersonator false _ => do
    let info ← previousDelegation ndr subject
    pacFailure (Pac.new.addBuffer pacDelegationInfo
      (ndr.encode ⟨proxyTargetString target, info.transitedServices ++ [impersonator]⟩))
  | _ => copyDelegation subject

/-- The client a PAC is for and whether its realm is written: a referral names the subject, a final S4U
ticket its client, and otherwise the subject's client information is copied. -/
def pacClientOf (part : EncTicketPart (TicketBody σ)) : S4uPac → Option (PrincipalName × Str) × Bool
  | .none => (.none, false)
  | .selfReq (some s) | .proxy _ _ _ (some s) => (some s, true)
  | _ => (some (part.rest.cname, Utf8.lossyStr part.rest.crealm.bytes), false)

def withClientInfo (subject pac : Pac) : S4uPac → Except KdcError Pac
  | .none => do
    let info ← pacFailure (subject.getBuffer Pac.clientInfoType)
    pacFailure (pac.addBuffer Pac.clientInfoType info)
  | _ => .ok pac

section
variable [Pac.Checksums]

def issuePac (config : KdcConfig) (ndr : Ndr) (part : EncTicketPart (TicketBody σ)) (server : PrincipalEntry)
    (serverKey : EncryptionKey) (localTgt : PrincipalEntry) (subject : Pac) (s4u : S4uPac) :
    Except KdcError (EncTicketPart (TicketBody σ)) := do
  let pac ← delegationPac ndr subject s4u
  let pac ← withClientInfo subject pac s4u
  let privsvr ← privsvrKey config localTgt
  let client := pacClientOf part s4u
  let signed ← pacFailure (Pac.kdcSignTicket der.toDer part pac server.name client.1 serverKey privsvr client.2)
  .ok signed.1

variable [Crypto]

def issueTgsAuthdata (config : KdcConfig) (ndr : Ndr) (part : EncTicketPart (TicketBody σ)) (server : PrincipalEntry)
    (serverKey : EncryptionKey) (localTgt : PrincipalEntry) (request : Option RequestAuthdata)
    (subjectTkt : EncTicketPart (TicketBody σ)) (subjectPac : Option Pac) (s4u : S4uPac) (indicators : List Str) :
    Except KdcError (EncTicketPart (TicketBody σ)) := do
  let own ← copyRequest der request
  let inherited ← copySubject der subjectTkt
  let list := own ++ inherited
  let part := { part with authorizationData := if list = [] then none else some list }
  if Flags.contains server.attributes PrincipalAttributes.noAuthDataRequired then .ok part
  else
    let part ← addAuthIndicators der part indicators serverKey localTgt
    match subjectPac with
    | none => .ok part
    | some subject =>
      if config.disablePac ∨ Flags.contains part.rest.flags TicketFlags.anonymous then .ok part
      else issuePac der config ndr part server serverKey localTgt subject s4u

end

end

end Authdata

end Krb5Rs
