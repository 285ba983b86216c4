import Krb5Rs.Tl

/-!
# Ticket policy

`kdc/policy.rs`, and what `process_as_req` and `process_tgs_req` do with it:
the flags and times of a ticket from the request, the entries and the header
ticket. Times are `i64` seconds, as integers; `0` is an absent time.
-/

namespace Krb5Rs

open Flags

namespace KdcOptions

abbrev forwardable : UInt32 := bit 30
abbrev forwarded : UInt32 := bit 29
abbrev proxiable : UInt32 := bit 28
abbrev proxy : UInt32 := bit 27
abbrev allowPostdate : UInt32 := bit 26
abbrev postdated : UInt32 := bit 25
abbrev renewable : UInt32 := bit 23
abbrev requestAnonymous : UInt32 := bit 15
abbrev disableTransitedCheck : UInt32 := bit 5
abbrev renewableOk : UInt32 := bit 4
abbrev encTktInSkey : UInt32 := bit 3
abbrev renew : UInt32 := bit 1
abbrev validate : UInt32 := bit 0

end KdcOptions

namespace TicketFlags

abbrev forwardable : UInt32 := bit 30
abbrev forwarded : UInt32 := bit 29
abbrev proxiable : UInt32 := bit 28
abbrev proxy : UInt32 := bit 27
abbrev mayPostdate : UInt32 := bit 26
abbrev postdated : UInt32 := bit 25
abbrev invalid : UInt32 := bit 24
abbrev renewable : UInt32 := bit 23
abbrev initial : UInt32 := bit 22
abbrev preAuthent : UInt32 := bit 21
abbrev hwAuthent : UInt32 := bit 20
abbrev transitedPolicyChecked : UInt32 := bit 19
abbrev okAsDelegate : UInt32 := bit 18
abbrev encPaRep : UInt32 := bit 16
abbrev anonymous : UInt32 := bit 15

def all : UInt32 := 0xfffd8000

end TicketFlags

namespace TicketPolicy

def kdcInfinity : Int := 4294967295

def unsupportedOptions : UInt32 :=
  KdcOptions.allowPostdate ||| KdcOptions.postdated ||| KdcOptions.validate ||| KdcOptions.proxy

structure RealmLimits where
  maxLife : Int
  maxRenewableLife : Int
deriving Repr, DecidableEq

structure Times where
  authtime : Int
  starttime : Int
  endtime : Int
  renewTill : Int
deriving Repr, DecidableEq

def secs (d : Duration) : Int := if d.secs < 2 ^ 63 then d.secs else 2 ^ 63 - 1

def ts (t : KerberosTime) : Int := t.seconds

def kerberosTime (ts : Int) : KerberosTime :=
  if -8334601228800 ≤ ts ∧ ts ≤ 8210266876799 then ⟨ts, 0⟩ else ⟨0, 0⟩

def optionalTime (ts : Int) : Option KerberosTime := if ts ≠ 0 then some (kerberosTime ts) else none

def lifetimeCap (d : Option Duration) : Option Int := (d.map secs).filter (· ≠ 0)

def capped (cap : Option Int) (life : Int) : Int :=
  match cap with
  | some cap => min life cap
  | none => life

def expired (limit : Option KerberosTime) (now : Int) : Bool :=
  match limit with
  | some limit => ts limit ≠ 0 ∧ ts limit < now
  | none => false

def saturatingAdd (a b : Int) : Int := max (-2 ^ 63) (min (a + b) (2 ^ 63 - 1))

section
variable [Alphabet]

def getTicketEndtime (limits : RealmLimits) (starttime endtime till : Int) (client : Option PrincipalEntry)
    (server : PrincipalEntry) : Int :=
  let till := if till ≤ 0 then kdcInfinity else min till kdcInfinity
  let until_ := min till endtime
  let life := max (until_ - starttime) (-2 ^ 31)
  let life := if starttime < until_ then min life (2 ^ 31 - 1) else life
  let life := capped (client.bind fun c => lifetimeCap c.maxLife) life
  let life := capped (lifetimeCap server.maxLife) life
  let life := if limits.maxLife ≠ 0 then min life limits.maxLife else life
  starttime + life

structure HeaderRenewal where
  flags : UInt32
  renewTill : Int

def requestedRtime (opts : UInt32) (reqRtime reqTill endtime : Int) : Option Int :=
  if contains opts KdcOptions.renewable then
    some (if 0 < reqRtime then min reqRtime kdcInfinity else kdcInfinity)
  else if contains opts KdcOptions.renewableOk ∧ endtime < reqTill then some (min reqTill kdcInfinity)
  else none

def denies (attr : UInt32) (client : Option PrincipalEntry) (server : PrincipalEntry) : Bool :=
  client.any (fun c => contains c.attributes attr) || contains server.attributes attr

def getTicketRenewtime (limits : RealmLimits) (opts : UInt32) (reqRtime reqTill : Int) (tgt : Option HeaderRenewal)
    (client : Option PrincipalEntry) (server : PrincipalEntry) (flags : UInt32) (times : Times) : UInt32 × Times :=
  let flags := remove flags TicketFlags.renewable
  let times := { times with renewTill := 0 }
  if denies PrincipalAttributes.disallowRenewable client server then (flags, times)
  else if tgt.any fun t => !contains t.flags TicketFlags.renewable then (flags, times)
  else
    match requestedRtime opts reqRtime reqTill times.endtime with
    | none => (flags, times)
    | some rtime =>
      let rtime := capped (tgt.map (·.renewTill)) rtime
      let maxRlife := capped (server.maxRenewableLife.map secs) limits.maxRenewableLife
      let maxRlife := capped ((client.bind (·.maxRenewableLife)).map secs) maxRlife
      let rtime := min rtime (saturatingAdd times.starttime maxRlife)
      if !contains opts KdcOptions.renewable ∧ rtime ≤ times.endtime then (flags, times)
      else (flags ||| TicketFlags.renewable, { times with renewTill := rtime })

def optionFlags : List (UInt32 × UInt32) :=
  [(KdcOptions.forwardable, TicketFlags.forwardable), (KdcOptions.forwarded, TicketFlags.forwarded),
    (KdcOptions.proxiable, TicketFlags.proxiable), (KdcOptions.proxy, TicketFlags.proxy),
    (KdcOptions.allowPostdate, TicketFlags.mayPostdate), (KdcOptions.postdated, TicketFlags.postdated),
    (KdcOptions.requestAnonymous, TicketFlags.anonymous)]

def inheritedFlags : UInt32 :=
  TicketFlags.forwarded ||| TicketFlags.proxy ||| TicketFlags.preAuthent ||| TicketFlags.hwAuthent |||
    TicketFlags.anonymous

def newFlags (opts : UInt32) (client : Option PrincipalEntry) (server : PrincipalEntry) (header : Option UInt32) :
    UInt32 :=
  let lacks (flag : UInt32) : Bool := header.any fun h => !contains h flag
  let flags := optionFlags.foldl (fun flags p => if contains opts p.1 then flags ||| p.2 else flags)
    TicketFlags.encPaRep
  let flags :=
    match header with
    | some h =>
      let flags := flags ||| (h &&& inheritedFlags)
      if contains server.attributes PrincipalAttributes.okAsDelegate then flags ||| TicketFlags.okAsDelegate else flags
    | none => flags ||| TicketFlags.initial
  let flags := if denies PrincipalAttributes.disallowProxiable client server || lacks TicketFlags.proxiable then
    remove flags TicketFlags.proxiable else flags
  let flags := if denies PrincipalAttributes.disallowForwardable client server || lacks TicketFlags.forwardable then
    remove flags TicketFlags.forwardable else flags
  if lacks TicketFlags.anonymous then remove flags TicketFlags.anonymous else flags

def getTicketFlags (opts : UInt32) (client : Option PrincipalEntry) (server : PrincipalEntry)
    (header : Option UInt32) : UInt32 :=
  match intersects opts (KdcOptions.validate ||| KdcOptions.renew), header with
  | true, some h => h &&& remove TicketFlags.all TicketFlags.invalid
  | _, _ => newFlags opts client server header

def tgsRules : List (UInt32 × UInt32 × String) :=
  [(KdcOptions.forwarded, TicketFlags.forwardable, "TGT NOT FORWARDABLE"),
    (KdcOptions.proxy, TicketFlags.proxiable, "TGT NOT PROXIABLE"),
    (KdcOptions.allowPostdate ||| KdcOptions.postdated, TicketFlags.mayPostdate, "TGT NOT POSTDATABLE"),
    (KdcOptions.validate, TicketFlags.invalid, "VALIDATE VALID TICKET"),
    (KdcOptions.renew, TicketFlags.renewable, "TICKET NOT RENEWABLE")]

def checkSupported (opts : UInt32) : Except KdcError Unit :=
  if intersects opts unsupportedOptions then .error ⟨13, "UNSUPPORTED OPTION"⟩ else .ok ()

def checkTgsOpts (opts headerFlags : UInt32) : Except KdcError Unit :=
  match tgsRules.find? fun r => intersects opts r.1 && !intersects headerFlags r.2.1 with
  | some (_, _, status) => .error ⟨13, status⟩
  | none =>
    if contains headerFlags TicketFlags.invalid ∧ !contains opts KdcOptions.validate then
      .error ⟨33, "TICKET NOT VALID"⟩
    else .ok ()

def checkTgsTimes (opts : UInt32) (headerRenewTill now : Int) : Except KdcError Unit :=
  if contains opts KdcOptions.renew ∧ headerRenewTill < now then .error ⟨32, "TKT_EXPIRED"⟩ else .ok ()

def checkTgsSvcPolicy (opts : UInt32) (server : PrincipalEntry) (headerFlags : UInt32) (headerIsTgs : Bool)
    (now : Int) : Except KdcError Unit :=
  let attrs := server.attributes
  if contains opts KdcOptions.renewable ∧ contains attrs PrincipalAttributes.disallowRenewable then
    .error ⟨12, "NON-RENEWABLE TICKET"⟩
  else if contains opts KdcOptions.encTktInSkey ∧ contains attrs PrincipalAttributes.disallowDupSkey then
    .error ⟨12, "DUP_SKEY DISALLOWED"⟩
  else if contains attrs PrincipalAttributes.disallowAllTix then .error ⟨7, "SERVER LOCKED OUT"⟩
  else if contains attrs PrincipalAttributes.disallowSvr ∧ !contains opts KdcOptions.encTktInSkey then
    .error ⟨27, "SERVER NOT ALLOWED"⟩
  else if contains attrs PrincipalAttributes.disallowTgtBased ∧ headerIsTgs then .error ⟨12, "TGT BASED NOT ALLOWED"⟩
  else if contains attrs PrincipalAttributes.requiresHwAuth ∧ !contains headerFlags TicketFlags.hwAuthent then
    .error ⟨60, "NO HW PREAUTH"⟩
  else if contains attrs PrincipalAttributes.requiresPreAuth ∧ !contains headerFlags TicketFlags.preAuthent then
    .error ⟨60, "NO PREAUTH"⟩
  else if expired server.expiration now then .error ⟨2, "SERVICE EXPIRED"⟩
  else .ok ()

/-! ## Issued tickets -/

structure TicketPart where
  flags : UInt32
  authtime : KerberosTime
  starttime : Option KerberosTime
  endtime : KerberosTime
  renewTill : Option KerberosTime
deriving Repr, DecidableEq

structure RealmConfig where
  maxLife : Duration
  maxRenewableLife : Duration
  clockskew : Duration
  rejectBadTransit : Bool

def RealmConfig.limits (config : RealmConfig) : RealmLimits := ⟨secs config.maxLife, secs config.maxRenewableLife⟩

def TicketPart.ofTimes (flags : UInt32) (times : Times) : TicketPart where
  flags := flags
  authtime := kerberosTime times.authtime
  starttime := optionalTime (if times.starttime = times.authtime then 0 else times.starttime)
  endtime := kerberosTime times.endtime
  renewTill := optionalTime times.renewTill

def asTimes (config : RealmConfig) (till : KerberosTime) (now : Int) (client server : PrincipalEntry) : Times where
  authtime := now
  starttime := now
  endtime := getTicketEndtime config.limits now kdcInfinity (ts till) (some client) server
  renewTill := 0

/-- What one element of the padata gives: `other` is none the KDC checks; only PKINIT shows a hardware token. -/
inductive PaVerdict
  | other
  | failed (err : KdcError)
  | verified (hw : Bool)

def PaVerdict.flags : PaVerdict → UInt32
  | .verified true => TicketFlags.hwAuthent ||| TicketFlags.preAuthent
  | .verified false => TicketFlags.preAuthent
  | _ => 0

def asTicket (config : RealmConfig) (opts : UInt32) (till : KerberosTime) (rtime : Option KerberosTime) (now : Int)
    (client server : PrincipalEntry) (padata : List PaVerdict) : TicketPart :=
  let renewed := getTicketRenewtime config.limits opts ((rtime.map ts).getD 0) (ts till) none (some client) server
    (getTicketFlags opts (some client) server none) (asTimes config till now client server)
  .ofTimes (padata.foldl (fun flags pa => flags ||| pa.flags) renewed.1) renewed.2

def nanoseconds (t : KerberosTime) : Int := t.seconds * 1000000000 + t.nanos

def Duration.nanoseconds (d : Duration) : Int := d.secs * 1000000000 + d.nanos

/-- `validate_times` of the header ticket, within the clock skew; a skew of more than `i64` milliseconds is no skew. -/
def validateTimes (clockskew : Duration) (now : KerberosTime) (header : TicketPart) : Except KdcError Unit :=
  let skew := Duration.nanoseconds clockskew
  if 9223372036854775807000000 < skew then .error ⟨39, "PROCESS_TGS"⟩
  else if nanoseconds now + skew < nanoseconds (header.starttime.getD header.authtime) then .error ⟨33, "PROCESS_TGS"⟩
  else if nanoseconds header.endtime + skew < nanoseconds now then .error ⟨32, "PROCESS_TGS"⟩
  else .ok ()

/-- A TGS request after the lookups. `admitted`, `authorized` and `granted` are the verdicts of the checks that read
neither times nor flags, before, between and after those modelled here: names, keys, PACs, delegation. -/
structure TgsRequest where
  now : KerberosTime
  opts : UInt32
  till : KerberosTime
  rtime : Option KerberosTime
  client : Option PrincipalEntry
  server : PrincipalEntry
  headerIsTgs : Bool
  /-- The evidence ticket of S4U2Proxy. -/
  evidence : Option TicketPart
  s4u2self : Bool
  isReferral : Bool
  transitOk : Bool
  admitted : Except KdcError Unit
  authorized : Except KdcError Unit
  granted : Except KdcError Unit

def s4u2selfForwardable (server : PrincipalEntry) (flags : UInt32) : UInt32 :=
  if contains server.attributes PrincipalAttributes.okToAuthAsDelegate then flags
  else if !server.allowedToDelegateTo.isEmpty then remove flags TicketFlags.forwardable
  else flags

def finishFlags (req : TgsRequest) (flags : UInt32) : UInt32 :=
  let flags := if req.s4u2self ∧ !req.isReferral then s4u2selfForwardable req.server flags else flags
  if !contains req.opts KdcOptions.disableTransitedCheck ∧ req.transitOk then
    flags ||| TicketFlags.transitedPolicyChecked
  else flags

def tgsEndtime (config : RealmConfig) (req : TgsRequest) (header : TicketPart) : Int :=
  let now := ts req.now
  if contains req.opts KdcOptions.renew then
    min ((header.renewTill.map ts).getD 0) (now + (ts header.endtime - ts (header.starttime.getD header.authtime)))
  else getTicketEndtime config.limits now (ts header.endtime) (ts req.till) req.client req.server

def tgsTimes (config : RealmConfig) (req : TgsRequest) (header : TicketPart) : Times where
  authtime := ts (req.evidence.getD header).authtime
  starttime := ts req.now
  endtime := tgsEndtime config req header
  renewTill := 0

def tgsRenewal (config : RealmConfig) (req : TgsRequest) (header : TicketPart) : UInt32 × Times :=
  getTicketRenewtime config.limits req.opts ((req.rtime.map ts).getD 0) (ts req.till)
    (some ⟨header.flags, (header.renewTill.map ts).getD 0⟩) req.client req.server
    (getTicketFlags req.opts req.client req.server (some header.flags)) (tgsTimes config req header)

def tgsPart (config : RealmConfig) (req : TgsRequest) (header : TicketPart) : TicketPart :=
  let renewed := tgsRenewal config req header
  .ofTimes (finishFlags req renewed.1) renewed.2

def checkTransit (config : RealmConfig) (part : TicketPart) : Except KdcError TicketPart :=
  if config.rejectBadTransit ∧ !contains part.flags TicketFlags.transitedPolicyChecked then
    .error ⟨12, "BAD_TRANSIT"⟩
  else .ok part

def tgsTicket (config : RealmConfig) (req : TgsRequest) (header : TicketPart) : Except KdcError TicketPart := do
  validateTimes config.clockskew req.now header
  req.admitted
  checkSupported req.opts
  checkTgsOpts req.opts header.flags
  checkTgsTimes req.opts ((header.renewTill.map ts).getD 0) (ts req.now)
  req.authorized
  checkTgsSvcPolicy req.opts req.server header.flags req.headerIsTgs (ts req.now)
  req.granted
  checkTransit config (tgsPart config req header)

end

end TicketPolicy

end Krb5Rs
