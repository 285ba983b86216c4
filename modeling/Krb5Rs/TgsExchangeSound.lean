import Krb5Rs.TgsExchange
import Krb5Rs.Trace

/-!
# Runs of the exchange with the ticket-granting service

What a step can do is said once, by `Move`; the bounds on the requests, the
identity of the credential and the flags of the TGTs follow by induction over
the run. A run may go on after a failed step.
-/

namespace Krb5Rs

open Wire (Bytes bind_eq_ok)
open Utf8 (Str)
open Flags
open Pac (AuthData Checksums)
open Stateful (lift_bind_of)
open Trace (event trace run since)
open TgsExchange (credential curTgt lastRealm state)

variable {realm : Str}

namespace TgsExchange

theorem nextHop_ok {resume next : ResumeState} (h : nextHop resume realm = .ok next) :
    ∃ seen n, resume = .referrals seen n ∧ n < maxReferralHops ∧ realm ∉ seen ∧
      next = .referrals (seen ++ [realm]) (n + 1) := by
  cases resume with
  | nonReferral => cases h
  | referrals seen n =>
    unfold nextHop at h
    dsimp only at h
    split at h
    · cases h
    split at h
    · cases h
    case isFalse hcount hnew =>
      cases h
      exact ⟨seen, n, rfl, by omega, hnew, rfl⟩

end TgsExchange

section
variable [Alphabet]

def TgsReq.canonicalize (data : TgsReq) : Bool := contains data.body.kdcOptions KdcOptions.canonicalize

namespace TgsExchange

theorem contains_kdcOptions (x : TgsExchange) (canonicalize : Bool) :
    contains (x.kdcOptions canonicalize) KdcOptions.canonicalize = canonicalize := by
  rw [contains_bit (by decide), kdcOptions]
  simp [has_ite]

structure Input where
  kdcReply : Bytes
  draw : Draw

/-- A request about to be built: the exchange as it stands, and what becomes of it once the request is sent. -/
structure Plan where
  base : TgsExchange
  canonicalize : Bool
  resume : ResumeState
  realm : Str
  first : Bool
  referral : Option EncKdcRepPart

def Plan.awaiting (p : Plan) : TgsExchange :=
  { p.base with state := .awaitReply p.resume, lastRealm := p.realm, firstReferralAttempt := p.first }

def frame (x : TgsExchange) : TgsExchange := { x with subkey := none, nonce := 0, lastReq := none, fastState := .new }

inductive Built (x : TgsExchange) (canonicalize : Bool) : EStateM.Result Krb5Error TgsExchange TgsReq → Prop
  | ok {data : TgsReq} {y : TgsExchange} (hframe : y.frame = x.frame) (hlast : y.lastReq = some data)
      (hnonce : data.body.nonce = y.nonce) (hcanon : data.canonicalize = canonicalize) :
      Built x canonicalize (.ok data y)
  | error {e : Krb5Error} {y : TgsExchange} (hframe : y.frame = x.frame) (hlast : y.lastReq = x.lastReq) :
      Built x canonicalize (.error e y)

inductive Sent (p : Plan) : EStateM.Result Krb5Error TgsExchange TgsStepResult → Prop
  | ok {data : TgsReq} {y : TgsExchange} (hframe : y.frame = p.awaiting.frame) (hlast : y.lastReq = some data)
      (hnonce : data.body.nonce = y.nonce) (hcanon : data.canonicalize = p.canonicalize) :
      Sent p (.ok (.sendToKdc data p.realm) y)
  | error {e : Krb5Error} {y : TgsExchange} (hframe : y.frame = p.base.frame) (hlast : y.lastReq = p.base.lastReq) :
      Sent p (.error e y)

def settled : EStateM.Result Krb5Error TgsExchange TgsStepResult → EStateM.Result Krb5Error TgsExchange TgsStepResult
  | .ok r y => .ok r { y with firstReferralAttempt := false }
  | .error e y => .error e y

variable {p : Plan} {x y x₀ : TgsExchange} {rep : KdcRep} {i : Input} {resume : ResumeState}
  {s : Option (TgsReq × Str)} {f : Option EncKdcRepPart} {part : EncKdcRepPart}

theorem Sent.settled {r : EStateM.Result Krb5Error TgsExchange TgsStepResult} (h : Sent p r) :
    Sent { p with first := false } (settled r) := by
  cases h with
  | error hframe hlast => exact .error hframe hlast
  | ok hframe hlast hnonce hcanon =>
    exact .ok (congrArg (fun z => { z with firstReferralAttempt := false }) hframe) hlast hnonce hcanon

/-! ## The requests of each state -/

/-- At most ten referrals and two more requests, to different realms but for the second, which may go to the
first's realm without `CANONICALIZE`. -/
structure Bounded (sent : List (TgsReq × Str)) (followed : List EncKdcRepPart) : Prop where
  hops : followed.length ≤ maxReferralHops
  requests : sent.length ≤ maxReferralHops + 2
  realms : ∀ {i j : Nat} {a b : TgsReq × Str}, i < j → sent[i]? = some a → sent[j]? = some b → a.2 = b.2 →
    i = 0 ∧ j = 1 ∧ b.1.canonicalize = false

def Stage (sent : List (TgsReq × Str)) (followed : List EncKdcRepPart) (x : TgsExchange) : Prop :=
  match x.state with
  | .begin => sent = [] ∧ followed = []
  | .awaitReply (.referrals seen n) => sent.map Prod.snd = seen ∧ seen.Nodup ∧ seen.length = n + 1 ∧
      followed.length = n ∧ n ≤ maxReferralHops ∧ (x.firstReferralAttempt = true → n = 0)
  | .awaitReply .nonReferral => followed = [] ∧
      ((∃ a, sent = [a]) ∨ ∃ a b, sent = [a, b] ∧ b.1.canonicalize = false)
  | .complete => Bounded sent followed

theorem bounded_of_nodup {sent : List (TgsReq × Str)} {followed : List EncKdcRepPart} {n : Nat}
    (hnodup : (sent.map Prod.snd).Nodup) (hsent : sent.length = n + 1) (hfollowed : followed.length = n)
    (hn : n ≤ maxReferralHops) : Bounded sent followed where
  hops := by omega
  requests := by omega
  realms := by
    intro i j a b hij ha hb hab
    have hi : i < (sent.map Prod.snd).length := by
      rw [List.length_map]
      exact (List.getElem?_eq_some_iff.mp ha).1
    have hsame : (sent.map Prod.snd)[i]? = (sent.map Prod.snd)[j]? := by
      rw [List.getElem?_map, List.getElem?_map, ha, hb, Option.map_some, Option.map_some, hab]
    exact absurd ((List.getElem?_inj hi hnodup).mp hsame) (Nat.ne_of_lt hij)

theorem Stage.bounded {sent : List (TgsReq × Str)} {followed : List EncKdcRepPart} (h : Stage sent followed x) :
    Bounded sent followed := by
  unfold Stage at h
  split at h
  case h_1 =>
    obtain ⟨rfl, rfl⟩ := h
    exact ⟨by simp, by simp, by simp⟩
  case h_2 =>
    obtain ⟨rfl, hnodup, hlen, hfollowed, hn, -⟩ := h
    rw [List.length_map] at hlen
    exact bounded_of_nodup hnodup hlen hfollowed hn
  case h_3 =>
    obtain ⟨rfl, h⟩ := h
    rcases h with ⟨a, rfl⟩ | ⟨a, b, rfl, hcanon⟩
    · exact bounded_of_nodup (by simp) rfl rfl (Nat.zero_le _)
    refine ⟨by simp, by simp [maxReferralHops], ?_⟩
    intro i j a' b' hij ha hb hab
    have hj : j < 2 := (List.getElem?_eq_some_iff.mp hb).1
    obtain ⟨rfl, rfl⟩ : i = 0 ∧ j = 1 := by omega
    cases hb
    exact ⟨rfl, rfl, hcanon⟩
  case h_4 => exact h

theorem Stage.congr {sent : List (TgsReq × Str)} {followed : List EncKdcRepPart} (h : Stage sent followed x)
    (hstate : y.state = x.state) (hfirst : y.firstReferralAttempt = true → x.firstReferralAttempt = true) :
    Stage sent followed y := by
  unfold Stage at h ⊢
  rw [hstate]
  split at h
  case h_2 =>
    obtain ⟨hsent, hnodup, hlen, hfollowed, hn, hzero⟩ := h
    exact ⟨hsent, hnodup, hlen, hfollowed, hn, hzero ∘ hfirst⟩
  all_goals exact h

/-! ## Replies -/

def okAsDelegate (flags : UInt32) : Bool := contains flags TicketFlags.okAsDelegate

theorem okAsDelegate_adopted (h : okAsDelegate (x.adoptedFlags part) = true) :
    okAsDelegate x.curTgt.flags = true ∧ okAsDelegate part.flags = true := by
  unfold adoptedFlags at h
  split at h
  case isTrue hx => exact ⟨hx, h⟩
  case isFalse =>
    rw [okAsDelegate, contains_bit (by decide), has_and, has_remove (by decide)] at h
    simp at h

structure Valid (x : TgsExchange) (rep : KdcRep) (part : EncKdcRepPart) : Prop where
  client : rep.cname = x.curTgt.client
  crealm : rep.crealm.bytes = x.curTgt.crealm.bytes
  nonce : part.nonce = x.nonce
  sname : rep.ticket.sname = part.sname
  srealm : rep.ticket.realm = part.srealm
  service : x.isReferralTgt part = false → x.options.canonicalize = false →
    part.sname.nameString = x.targetServer.nameString

theorem validateTgsReply_ok {now : Int} (h : x.validateTgsReply rep part now = .ok ()) : Valid x rep part := by
  unfold validateTgsReply at h
  repeat' split at h
  all_goals try cases h
  rename_i hclient hcrealm hnonce hsname hsrealm hservice _
  refine ⟨not_not.mp hclient, not_not.mp hcrealm, not_not.mp hnonce, not_not.mp hsname, not_not.mp hsrealm, ?_⟩
  intro href hcanon
  by_contra hne
  exact hservice ⟨by simp [href], by simp [hcanon], hne⟩

structure Fixed (x₀ x : TgsExchange) : Prop where
  target : x.targetServer = x₀.targetServer
  options : x.options = x₀.options
  client : x.curTgt.client = x₀.curTgt.client
  crealm : x.curTgt.crealm = x₀.curTgt.crealm

theorem Fixed.of_frame (h : Fixed x₀ x) (hframe : y.frame = x.frame) : Fixed x₀ y where
  target := (congrArg TgsExchange.targetServer hframe).trans h.target
  options := (congrArg TgsExchange.options hframe).trans h.options
  client := (congrArg (·.curTgt.client) hframe).trans h.client
  crealm := (congrArg (·.curTgt.crealm) hframe).trans h.crealm

theorem Valid.crealm_eq (h : Valid x rep part) : Utf8.lossyStr rep.crealm.bytes = x.curTgt.crealm := by
  rw [h.crealm, Utf8.lossyStr_bytes]

/-! ## The last request -/

abbrev Event := Trace.Event Krb5Error TgsExchange Input TgsStepResult

def sentBy (e : Event) : Option (TgsReq × Str) :=
  match e.result with
  | .ok (.sendToKdc data realm) _ => some (data, realm)
  | _ => none

/-- A step that failed after it drew a nonce, for a request it did not send. -/
def Abandoned (e : Event) : Prop := (∃ err y, e.result = .error err y) ∧ e.after.nonce ≠ e.before.nonce

def sent (t : List Event) : List (TgsReq × Str) := t.filterMap sentBy

def sinceSent (t : List Event) : List Event := since (fun e => (sentBy e).isSome) t

/-- The last request, with the nonce that a reply must have unless a step has failed that drew another. -/
def Last (t : List Event) (x : TgsExchange) : Prop :=
  x.state ≠ .begin → ∃ data realm, (sent t).getLast? = some (data, realm) ∧ x.lastReq = some data ∧
    x.lastRealm = realm ∧ (data.body.nonce = x.nonce ∨ ∃ e ∈ sinceSent t, Abandoned e)

variable {t : List Event} {e : Event} {data : TgsReq}

theorem Last.quiet (h : Last t e.before) (hnone : sentBy e = none) (hreq : e.after.lastReq = e.before.lastReq)
    (hrealm : e.after.lastRealm = e.before.lastRealm)
    (hfailed : e.after.nonce ≠ e.before.nonce → ∃ err y, e.result = .error err y)
    (hstate : e.before.state = .begin → e.after.state = .begin) : Last (t ++ [e]) e.after := by
  intro hafter
  obtain ⟨data, realm, hget, hlast, hlastRealm, hnonce⟩ := h fun hbefore => hafter (hstate hbefore)
  refine ⟨data, realm, ?_, hreq.trans hlast, hrealm.trans hlastRealm, ?_⟩
  · rw [sent, Trace.filterMap_concat, hnone, Option.toList_none, List.append_nil]
    exact hget
  · rw [sinceSent, Trace.since_concat, hnone]
    by_cases hsame : e.after.nonce = e.before.nonce
    · rcases hnonce with hnonce | ⟨e', he', hab⟩
      · exact .inl (hnonce.trans hsame.symm)
      · exact .inr ⟨e', List.mem_cons_of_mem _ he', hab⟩
    · exact .inr ⟨e, List.mem_cons_self, hfailed hsame, hsame⟩

theorem Last.sends (hsent : sentBy e = some (data, realm))
    (hreq : e.after.lastReq = some data) (hrealm : e.after.lastRealm = realm)
    (hnonce : data.body.nonce = e.after.nonce) : Last (t ++ [e]) e.after := by
  intro _
  refine ⟨data, realm, ?_, hreq, hrealm, .inl hnonce⟩
  rw [sent, Trace.filterMap_concat, hsent]
  simp

variable [TgsDer] [Crypto]

/-! ## Building a request -/

theorem reqBody_ok {subkey : EncryptionKey} {draw : Draw} {canonicalize : Bool} {body : KdcReqBody}
    (h : x.reqBody subkey draw canonicalize = .ok body) :
    body.nonce = x.nonce ∧ body.kdcOptions = x.kdcOptions canonicalize := by
  obtain ⟨realm, -, h⟩ := bind_eq_ok.mp h
  obtain ⟨data, -, h⟩ := bind_eq_ok.mp h
  cases h
  exact ⟨rfl, rfl⟩

variable [KeyDerivation]

theorem buildTgsReq_built (draw : Draw) (canonicalize : Bool) (x : TgsExchange) :
    Built x canonicalize (buildTgsReq draw canonicalize x) := by
  refine lift_bind_of (fun e _ => .error rfl rfl) fun subkey _ => ?_
  refine lift_bind_of (fun e _ => .error rfl rfl) fun body hbody => ?_
  refine lift_bind_of (fun e _ => .error rfl rfl) fun bodyDer _ => ?_
  refine lift_bind_of (fun e _ => .error rfl rfl) fun armorKey _ => ?_
  refine lift_bind_of (fun e _ => .error rfl rfl) fun apReq _ => ?_
  refine lift_bind_of (fun e _ => .error rfl rfl) fun der _ => ?_
  obtain ⟨hnonce, hopts⟩ := reqBody_ok hbody
  refine .ok rfl rfl hnonce ?_
  rw [TgsReq.canonicalize, hopts]
  exact contains_kdcOptions _ _

theorem sendRequest_sent (draw : Draw) (canonicalize : Bool) (resume : ResumeState) (realm : Str) (x : TgsExchange)
    (referral : Option EncKdcRepPart) : Sent ⟨x, canonicalize, resume, realm, x.firstReferralAttempt, referral⟩
      (sendRequest draw canonicalize resume realm x) := by
  have h := buildTgsReq_built draw canonicalize x
  unfold sendRequest
  rw [Stateful.bind_apply]
  cases hb : buildTgsReq draw canonicalize x with
  | error e y =>
    rw [hb] at h
    cases h with
    | error hframe hlast => exact .error hframe hlast
  | ok data y =>
    rw [hb] at h
    cases h with
    | ok hframe hlast hnonce hcanon =>
      exact .ok (congrArg (fun z => { z with state := .awaitReply resume, lastRealm := realm }) hframe) hlast
        hnonce hcanon

/-! ## Steps -/

variable [Checksums] {tgsRep : KdcRep} (tgt : Credential) (target : PrincipalName) (options : TgsOptions)
  (secondTicket : Option Ticket) (enctype : Int32) (authdata : Option (List AuthData))

def received (i : Input) : Option KdcRep :=
  if i.kdcReply = [] then none else (TgsDer.tgsRep i.kdcReply).filter fun rep => rep.pvno = 5 ∧ rep.msgType = 13

def accepted (x : TgsExchange) (i : Input) : Option (KdcRep × EncKdcRepPart) :=
  match x.state with
  | .awaitReply _ => (received i).bind fun rep => (x.readTgsRep rep i.draw.now).toOption
  | _ => none

inductive Planned (x : TgsExchange) (i : Input) : Plan → Prop
  | first (hstate : x.state = .begin) :
      Planned x i ⟨x, x.options.canonicalize,
        if x.options.canonicalize then .referrals [x.tgtTargetRealm] 0 else .nonReferral,
        x.tgtTargetRealm, x.firstReferralAttempt, none⟩
  | referral {seen : List Str} {n : Nat} {realm : Str} {rep : KdcRep} {part : EncKdcRepPart}
      (hstate : x.state = .awaitReply (.referrals seen n)) (hrep : x.accepted i = some (rep, part))
      (hcount : n < maxReferralHops) (hnew : realm ∉ seen) :
      Planned x i ⟨x.adopt rep part, true, .referrals (seen ++ [realm]) (n + 1), realm, false, some part⟩
  | fallback {seen : List Str} {n : Nat} (hstate : x.state = .awaitReply (.referrals seen n))
      (hfirst : x.firstReferralAttempt = true) (hrep : x.accepted i = none) :
      Planned x i ⟨{ x with firstReferralAttempt := false }, false, .nonReferral, x.tgtTargetRealm, false, none⟩

inductive Move (x : TgsExchange) (i : Input) : EStateM.Result Krb5Error TgsExchange TgsStepResult → Prop
  | fails (e : Krb5Error) : Move x i (.error e x)
  | retries {resume : ResumeState} (hstate : x.state = .awaitReply resume) :
      Move x i (.ok (.retryTcp x.lastReq x.lastRealm) x)
  | stays (hstate : x.state = .complete) : Move x i (.ok .complete x)
  | finishes {resume : ResumeState} {rep : KdcRep} {part : EncKdcRepPart} (hstate : x.state = .awaitReply resume)
      (hrep : x.accepted i = some (rep, part)) (hservice : x.referralInstance part = none) :
      Move x i (.ok .complete { x with
        credential := some (credentialFromRep rep part), state := .complete, firstReferralAttempt := false })
  | sends {p : Plan} {r : EStateM.Result Krb5Error TgsExchange TgsStepResult} (hplan : Planned x i p)
      (hsent : Sent p r) : Move x i r

theorem processTgsRep_move (hstate : x.state = .awaitReply resume)
    (hreceived : received i = some tgsRep) : Move x i (settled (processTgsRep tgsRep resume i.draw x)) := by
  refine lift_bind_of (P := fun r => Move x i (settled r)) (fun e _ => .fails e) fun r hread => ?_
  have hrep : x.accepted i = some (r.1, r.2) := by
    unfold accepted
    rw [hstate, hreceived]
    simp [hread, Except.toOption]
  cases hinst : x.referralInstance r.2 with
  | none => exact .finishes hstate hrep hinst
  | some inst =>
    refine lift_bind_of (P := fun r => Move x i (settled r)) (fun e _ => .fails e) fun next hnext => ?_
    obtain ⟨seen, n, rfl, hcount, hnew, rfl⟩ := nextHop_ok hnext
    exact .sends (.referral hstate hrep hcount hnew) (sendRequest_sent _ _ _ _ _ _).settled

theorem processRep_move (hstate : x.state = .awaitReply resume) (hreply : i.kdcReply ≠ [])
    (hdecode : TgsDer.tgsRep i.kdcReply = some tgsRep) : Move x i (processRep tgsRep resume i.draw x) := by
  unfold processRep
  split
  case isTrue => exact .fails _
  case isFalse htype =>
    have hreceived : received i = some tgsRep := by
      rw [received, if_neg hreply, hdecode]
      simp only [not_or, not_not] at htype
      simp [htype]
    have h := processTgsRep_move hstate hreceived
    rw [Stateful.bind_apply]
    cases hp : processTgsRep tgsRep resume i.draw x with
    | error e y =>
      rw [hp] at h
      exact h
    | ok r y =>
      rw [hp] at h
      exact h

theorem processKrbError_move (err : KrbErrorMsg) (hstate : x.state = .awaitReply resume)
    (hdecode : TgsDer.tgsRep i.kdcReply = none) : Move x i (processKrbError err resume i.draw x) := by
  unfold processKrbError
  rw [Stateful.get_bind]
  split
  · exact .retries hstate
  split
  case isFalse => exact .fails _
  case isTrue h =>
    obtain ⟨-, hfirst, hresume⟩ := h
    have hrep : x.accepted i = none := by
      unfold accepted received
      rw [hstate, hdecode]
      simp
    cases resume with
    | nonReferral => exact absurd rfl hresume
    | referrals seen n => exact .sends (.fallback hstate hfirst hrep) (sendRequest_sent _ _ _ _ _ _)

theorem processReply_move (hstate : x.state = .awaitReply resume) :
    Move x i (processReply i.kdcReply resume i.draw x) := by
  unfold processReply
  split
  case isTrue => exact .fails _
  case isFalse hreply =>
    cases hdecode : TgsDer.tgsRep i.kdcReply with
    | some tgsRep => exact processRep_move hstate hreply hdecode
    | none =>
      refine lift_bind_of (fun e _ => .fails e) fun outer _ => ?_
      refine lift_bind_of (P := Move x i) (fun e _ => .fails e) fun err _ => ?_
      exact processKrbError_move err hstate hdecode

def call (i : Input) : EStateM Krb5Error TgsExchange TgsStepResult := step i.kdcReply i.draw

theorem call_move (x : TgsExchange) (i : Input) : Move x i (call i x) := by
  unfold call step
  rw [Stateful.get_bind]
  cases hstate : x.state with
  | begin => exact .sends (.first hstate) (sendRequest_sent _ _ _ _ _ _)
  | awaitReply resume => exact processReply_move hstate
  | complete => exact .stays hstate

/-! ## Events -/

def followedBy (e : Event) : Option EncKdcRepPart :=
  if (sentBy e).isSome then (e.before.accepted e.input).map Prod.snd else none

def followed (t : List Event) : List EncKdcRepPart := t.filterMap followedBy

/-- What a step sends, the referral it follows, and the exchange it leaves. -/
inductive Effect (x : TgsExchange) (i : Input) : Option (TgsReq × Str) → Option EncKdcRepPart → TgsExchange → Prop
  | same : Effect x i none none x
  | finishes {resume : ResumeState} {rep : KdcRep} {part : EncKdcRepPart} (hstate : x.state = .awaitReply resume)
      (hrep : x.accepted i = some (rep, part)) (hservice : x.referralInstance part = none) :
      Effect x i none none { x with
        credential := some (credentialFromRep rep part), state := .complete, firstReferralAttempt := false }
  | abandons {p : Plan} {y : TgsExchange} (hplan : Planned x i p) (hframe : y.frame = p.base.frame)
      (hlast : y.lastReq = p.base.lastReq) : Effect x i none none y
  | sends {p : Plan} {data : TgsReq} {y : TgsExchange} (hplan : Planned x i p) (hframe : y.frame = p.awaiting.frame)
      (hlast : y.lastReq = some data) (hnonce : data.body.nonce = y.nonce)
      (hcanon : data.canonicalize = p.canonicalize) : Effect x i (some (data, p.realm)) p.referral y

theorem Planned.accepted (h : Planned x i p) : (x.accepted i).map Prod.snd = p.referral := by
  cases h with
  | first hstate => simp [TgsExchange.accepted, hstate]
  | referral _ hrep _ _ => simp [hrep]
  | fallback _ _ hrep => simp [hrep]

theorem event_effect (x : TgsExchange) (i : Input) :
    Effect x i (sentBy (event call x i)) (followedBy (event call x i)) (event call x i).after := by
  have h := call_move x i
  unfold followedBy sentBy Trace.Event.after event
  generalize call i x = r at h
  cases h with
  | fails e => exact .same
  | retries hstate => exact .same
  | stays hstate => exact .same
  | finishes hstate hrep hservice => exact .finishes hstate hrep hservice
  | sends hplan hsent =>
    cases hsent with
    | error hframe hlast => exact .abandons hplan hframe hlast
    | ok hframe hlast hnonce hcanon =>
      have := Effect.sends hplan hframe hlast hnonce hcanon
      rwa [← hplan.accepted] at this

/-! ## What a step keeps -/

theorem accepted_valid (h : x.accepted i = some (rep, part)) : Valid x rep part := by
  unfold accepted at h
  split at h
  case h_2 => cases h
  case h_1 =>
    obtain ⟨tgsRep, -, h⟩ := Option.bind_eq_some_iff.mp h
    have hread : x.readTgsRep tgsRep i.draw.now = .ok (rep, part) := by
      cases hr : x.readTgsRep tgsRep i.draw.now with
      | error e => rw [hr] at h; cases h
      | ok r =>
        rw [hr] at h
        exact congrArg Except.ok (Option.some.inj h)
    obtain ⟨r, -, hread⟩ := bind_eq_ok.mp hread
    obtain ⟨encPart, -, hread⟩ := bind_eq_ok.mp hread
    obtain ⟨u, hvalid, hread⟩ := bind_eq_ok.mp hread
    cases hread
    exact validateTgsReply_ok hvalid

theorem Planned.fixed (h : Planned x i p) (hx : Fixed x₀ x) : Fixed x₀ p.base := by
  cases h with
  | first _ => exact hx
  | fallback _ _ _ => exact ⟨hx.target, hx.options, hx.client, hx.crealm⟩
  | referral _ hrep _ _ =>
    have hvalid := accepted_valid hrep
    exact ⟨hx.target, hx.options, hvalid.client.trans hx.client, hvalid.crealm_eq.trans hx.crealm⟩

theorem Effect.fixed (h : Effect x i s f y) (hx : Fixed x₀ x) : Fixed x₀ y := by
  cases h with
  | same => exact hx
  | finishes _ _ _ => exact ⟨hx.target, hx.options, hx.client, hx.crealm⟩
  | abandons hplan hframe _ => exact (hplan.fixed hx).of_frame hframe
  | sends hplan hframe _ _ _ =>
    refine Fixed.of_frame ?_ hframe
    have hbase := hplan.fixed hx
    exact ⟨hbase.target, hbase.options, hbase.client, hbase.crealm⟩

structure Untouched (x y : TgsExchange) : Prop where
  state : y.state = x.state
  lastReq : y.lastReq = x.lastReq
  lastRealm : y.lastRealm = x.lastRealm
  credential : y.credential = x.credential

theorem Planned.untouched (h : Planned x i p) : Untouched x p.base := by
  cases h <;> exact ⟨rfl, rfl, rfl, rfl⟩

theorem Planned.abandoned (h : Planned x i p) (hframe : y.frame = p.base.frame)
    (hlast : y.lastReq = p.base.lastReq) : Untouched x y where
  state := (congrArg state hframe).trans h.untouched.state
  lastReq := hlast.trans h.untouched.lastReq
  lastRealm := (congrArg lastRealm hframe).trans h.untouched.lastRealm
  credential := (congrArg credential hframe).trans h.untouched.credential

theorem Planned.keepsFirst (h : Planned x i p) (hfirst : p.base.firstReferralAttempt = true) :
    x.firstReferralAttempt = true := by
  cases h with
  | first _ => exact hfirst
  | referral _ _ _ _ => exact hfirst
  | fallback _ hattempt _ => exact hattempt

theorem Planned.stage {sent : List (TgsReq × Str)} {followed : List EncKdcRepPart}
    (h : Planned x i p) (hstage : Stage sent followed x) (hframe : y.frame = p.awaiting.frame)
    (hcanon : data.canonicalize = p.canonicalize) :
    Stage (sent ++ [(data, p.realm)]) (followed ++ p.referral.toList) y := by
  have hstate : y.state = .awaitReply p.resume := congrArg state hframe
  have hfirst : y.firstReferralAttempt = p.first := congrArg TgsExchange.firstReferralAttempt hframe
  cases h with
  | first hbegin =>
    simp only [Stage, hbegin] at hstage
    obtain ⟨rfl, rfl⟩ := hstage
    cases hopt : x.options.canonicalize <;> simp [Stage, hstate, hopt]
  | referral hawait _ hcount hnew =>
    simp only [Stage, hawait] at hstage
    obtain ⟨rfl, hnodup, hlen, hfollowed, -, -⟩ := hstage
    simp only [Stage, hstate, hfirst]
    refine ⟨by simp, ?_, by simp [← hlen], by simp [hfollowed], hcount, by simp⟩
    refine List.nodup_append.mpr ⟨hnodup, by simp, ?_⟩
    intro a ha b hb hab
    rw [List.mem_singleton.mp hb] at hab
    exact hnew (hab ▸ ha)
  | fallback hawait hattempt _ =>
    simp only [Stage, hawait] at hstage
    obtain ⟨rfl, -, hlen, hfollowed, -, hzero⟩ := hstage
    rw [hzero hattempt] at hlen hfollowed
    rw [List.length_map] at hlen
    obtain ⟨a, rfl⟩ := List.length_eq_one_iff.mp hlen
    obtain rfl := List.eq_nil_of_length_eq_zero hfollowed
    simp only [Stage, hstate]
    exact ⟨rfl, .inr ⟨a, _, rfl, hcanon⟩⟩

theorem Effect.stage {sent : List (TgsReq × Str)} {followed : List EncKdcRepPart} (h : Effect x i s f y)
    (hstage : Stage sent followed x) : Stage (sent ++ s.toList) (followed ++ f.toList) y := by
  cases h with
  | same => simpa using hstage
  | finishes _ _ _ => simpa [Stage] using hstage.bounded
  | abandons hplan hframe hlast =>
    have hfirst := congrArg TgsExchange.firstReferralAttempt hframe
    have hstate := (hplan.abandoned hframe hlast).state
    simpa using hstage.congr hstate fun hy => hplan.keepsFirst (hfirst.symm.trans hy)
  | sends hplan hframe _ _ hcanon => exact hplan.stage hstage hframe hcanon

/-- The TGT in use is OK as a delegate only behind a chain of such referrals. -/
def Delegates (followed : List EncKdcRepPart) (x : TgsExchange) : Prop :=
  okAsDelegate x.curTgt.flags = true → ∀ part ∈ followed, okAsDelegate part.flags = true

theorem Planned.delegates {followed : List EncKdcRepPart} (h : Planned x i p) (hx : Delegates followed x) :
    Delegates (followed ++ p.referral.toList) p.base := by
  cases h with
  | first _ => simpa using hx
  | fallback _ _ _ =>
    rw [Option.toList_none, List.append_nil]
    exact hx
  | referral _ _ _ _ =>
    intro hflag part hpart
    obtain ⟨hold, hnew⟩ := okAsDelegate_adopted hflag
    rcases List.mem_append.mp hpart with hpart | hpart
    · exact hx hold part hpart
    · obtain rfl := List.mem_singleton.mp hpart
      exact hnew

theorem Effect.delegates {followed : List EncKdcRepPart} (h : Effect x i s f y) (hx : Delegates followed x) :
    Delegates (followed ++ f.toList) y := by
  cases h with
  | same => simpa using hx
  | finishes _ _ _ =>
    rw [Option.toList_none, List.append_nil]
    exact hx
  | abandons hplan hframe _ =>
    have htgt := congrArg curTgt hframe
    intro hflag part hpart
    exact hplan.delegates hx (htgt ▸ hflag) part (List.mem_append_left _ (by simpa using hpart))
  | sends hplan hframe _ _ _ =>
    have htgt := congrArg curTgt hframe
    intro hflag
    exact hplan.delegates hx (htgt ▸ hflag)

/-! ## Runs -/

def start (tgt : Credential) (target : PrincipalName) (options : TgsOptions) (secondTicket : Option Ticket)
    (enctype : Int32) (authdata : Option (List AuthData)) : TgsExchange :=
  ((new tgt target options).withSecondTicket secondTicket |>.withEnctype enctype).withAuthdata authdata

theorem failed_of_unsent (x : TgsExchange) (i : Input) (hs : sentBy (event call x i) = none)
    (hne : (event call x i).after.nonce ≠ x.nonce) : ∃ err y, (event call x i).result = .error err y := by
  have hmove := call_move x i
  unfold event Trace.Event.after at *
  unfold sentBy at hs
  dsimp only at *
  generalize call i x = r at *
  cases hmove with
  | fails e => exact ⟨e, x, rfl⟩
  | retries | stays | finishes => exact absurd rfl hne
  | sends _ hsent =>
    cases hsent with
    | ok => cases hs
    | error => exact ⟨_, _, rfl⟩

theorem last_step (heff : Effect e.before e.input s f e.after) (hs : sentBy e = s)
    (hfailed : sentBy e = none → e.after.nonce ≠ e.before.nonce → ∃ err y, e.result = .error err y)
    (h : Last t e.before) : Last (t ++ [e]) e.after := by
  generalize hy : e.after = y at heff
  cases heff with
  | same => exact hy ▸ h.quiet hs (by rw [hy]) (by rw [hy]) (hfailed hs) (by rw [hy]; exact id)
  | finishes hstate _ _ =>
    refine hy ▸ h.quiet hs (by rw [hy]) (by rw [hy]) (hfailed hs) ?_
    rw [hstate]
    intro hbegin
    cases hbegin
  | abandons hplan hframe hlast =>
    have hkept := hplan.abandoned hframe hlast
    subst hy
    exact h.quiet hs hkept.lastReq hkept.lastRealm (hfailed hs) hkept.state.trans
  | sends hplan hframe hlast hnonce _ =>
    subst hy
    exact .sends hs hlast (congrArg lastRealm hframe) hnonce

def completedBy (e : Event) : Option (KdcRep × EncKdcRepPart) :=
  (e.before.accepted e.input).filter fun r => (e.before.referralInstance r.2).isNone

structure Finished (t : List Event) (x : TgsExchange) (e : Event) (rep : KdcRep) (part : EncKdcRepPart) : Prop where
  mem : e ∈ t
  completed : completedBy e = some (rep, part)
  credential : x.credential = some (credentialFromRep rep part)
  curTgt : e.before.curTgt = x.curTgt
  nonce : part.nonce = x.nonce

structure Held (x₀ : TgsExchange) (t : List Event) (x : TgsExchange) : Prop where
  stage : Stage (sent t) (followed t) x
  fixed : Fixed x₀ x
  before : ∀ e ∈ t, Fixed x₀ e.before
  delegates : Delegates (followed t) x
  last : Last t x
  resent : ∀ e ∈ t, ∀ data realm y, e.result = .ok (.retryTcp data realm) y →
    ∃ r ∈ sent t, data = some r.1 ∧ realm = r.2
  reported : ∀ e ∈ t, ∀ y, e.result = .ok .complete y → x.state = .complete
  pending : x.state ≠ .complete → x.credential = none
  finished : x.state = .complete → ∃ e rep part, Finished t x e rep part

theorem finished_step (heff : Effect e.before e.input s f e.after)
    (hpending : e.before.state ≠ .complete → e.before.credential = none)
    (hfinished : e.before.state = .complete → ∃ e' rep part, Finished t e.before e' rep part) :
    (e.after.state ≠ .complete → e.after.credential = none) ∧
      (e.after.state = .complete → ∃ e' rep part, Finished (t ++ [e]) e.after e' rep part) := by
  generalize hy : e.after = y at heff
  cases heff with
  | same =>
    refine ⟨hpending, fun hstate => ?_⟩
    obtain ⟨e', rep, part, h⟩ := hfinished hstate
    exact ⟨e', rep, part, List.mem_append_left _ h.mem, h.completed, h.credential, h.curTgt, h.nonce⟩
  | @finishes _ rep part hstate hrep hservice =>
    refine ⟨fun hne => absurd rfl hne, fun _ => ⟨e, rep, part, ?_⟩⟩
    exact ⟨by simp, by simp [completedBy, hrep, hservice], rfl, rfl, (accepted_valid hrep).nonce⟩
  | abandons hplan hframe hlast =>
    have hkept := hplan.abandoned hframe hlast
    have hstate : e.before.state ≠ .complete := by
      cases hplan <;> simp_all
    rw [hkept.state, hkept.credential]
    exact ⟨hpending, fun hcomplete => absurd hcomplete hstate⟩
  | sends hplan hframe _ _ _ =>
    have hstate := congrArg state hframe
    have hcred := (congrArg credential hframe).trans hplan.untouched.credential
    have hbefore : e.before.state ≠ .complete := by
      cases hplan <;> simp_all
    refine ⟨fun _ => hcred.trans (hpending hbefore), fun hcomplete => ?_⟩
    rw [show y.state = _ from hstate] at hcomplete
    cases hcomplete

theorem resent_step {data : Option TgsReq} (i : Input)
    (h : call i x = .ok (.retryTcp data realm) y) (hlast : Last t x) :
    ∃ r ∈ sent t, data = some r.1 ∧ realm = r.2 := by
  have hmove := call_move x i
  rw [h] at hmove
  cases hmove with
  | retries hstate =>
    obtain ⟨data, realm, hget, hreq, hrealm, -⟩ := hlast (by simp [hstate])
    exact ⟨(data, realm), List.mem_of_getLast? hget, hreq, hrealm⟩
  | sends _ hsent => cases hsent

theorem reported_step (i : Input) (h : (∃ y, call i x = .ok .complete y) ∨ x.state = .complete) :
    (event call x i).after.state = .complete := by
  have hmove := call_move x i
  unfold event Trace.Event.after
  generalize call i x = r at h hmove
  cases hmove with
  | fails e => simpa using h
  | retries hstate => simp [hstate] at h
  | stays hstate => exact hstate
  | finishes _ _ _ => rfl
  | sends hplan hsent =>
    have hbefore : x.state ≠ .complete := by
      cases hplan <;> simp_all
    cases hsent <;> simp [hbefore] at h

theorem held_start
    :
    Held (start tgt target options secondTicket enctype authdata) []
      (start tgt target options secondTicket enctype authdata) where
  stage := ⟨rfl, rfl⟩
  fixed := ⟨rfl, rfl, rfl, rfl⟩
  before := by simp
  delegates := by simp [Delegates, followed]
  last := fun hstate => absurd rfl hstate
  resent := by simp
  reported := by simp
  pending := fun _ => rfl
  finished := by
    intro hstate
    cases hstate

theorem held_step (i : Input) (h : Held x₀ t x) : Held x₀ (t ++ [event call x i]) (event call x i).after := by
  have heff := event_effect x i
  obtain ⟨hpending, hfinished⟩ := finished_step (e := event call x i) heff h.pending h.finished
  refine ⟨?_, heff.fixed h.fixed, ?_, ?_, ?_, ?_, ?_, hpending, hfinished⟩
  · rw [sent, followed, Trace.filterMap_concat, Trace.filterMap_concat]
    exact heff.stage h.stage
  · intro e he
    rcases List.mem_append.mp he with he | he
    · exact h.before e he
    · obtain rfl := List.mem_singleton.mp he
      exact h.fixed
  · rw [followed, Trace.filterMap_concat]
    exact heff.delegates h.delegates
  · exact last_step (e := event call x i) heff rfl (failed_of_unsent x i) h.last
  · intro e he data realm y hresult
    rw [sent, Trace.filterMap_concat]
    have hsome : ∃ r ∈ sent t, data = some r.1 ∧ realm = r.2 := by
      rcases List.mem_append.mp he with he | he
      · exact h.resent e he data realm y hresult
      · obtain rfl := List.mem_singleton.mp he
        exact resent_step i hresult h.last
    obtain ⟨r, hr, heq⟩ := hsome
    exact ⟨r, List.mem_append_left _ hr, heq⟩
  · intro e he y hresult
    rcases List.mem_append.mp he with he | he
    · exact reported_step i (.inr (h.reported e he y hresult))
    · obtain rfl := List.mem_singleton.mp he
      exact reported_step i (.inl ⟨y, hresult⟩)

theorem held_run (inputs : List Input) : Held (start tgt target options secondTicket enctype authdata)
      (trace call (start tgt target options secondTicket enctype authdata) inputs)
      (run call (start tgt target options secondTicket enctype authdata) inputs) :=
  Trace.invariant (P := Held (start tgt target options secondTicket enctype authdata)) (held_start _ _ _ _ _ _)
    (fun _ _ i h => held_step i h) inputs

/-! ## Results -/

section
variable (tgt : Credential) (target : PrincipalName) (options : TgsOptions) (secondTicket : Option Ticket)
  (enctype : Int32) (authdata : Option (List AuthData)) (inputs : List Input)

/-- A bounded run whose credential is the client's. -/
structure Chased (t : List Event) (x : TgsExchange) : Prop where
  bounded : Bounded (sent t) (followed t)
  resent : ∀ e ∈ t, ∀ data realm y, e.result = .ok (.retryTcp data realm) y →
    ∃ r ∈ sent t, data = some r.1 ∧ realm = r.2
  credential : ∀ e ∈ t, ∀ y, e.result = .ok .complete y → x.credential.isSome
  client : ∀ cred, x.credential = some cred → cred.client = tgt.client ∧ cred.crealm = tgt.crealm
  /-- The credential is that of a reply with a consistent ticket and the nonce of the last request, unless a step has
  failed since that drew another. -/
  reply : ∀ cred, x.credential = some cred → ∃ e ∈ t, ∃ rep part, completedBy e = some (rep, part) ∧
    cred = credentialFromRep rep part ∧ cred.ticket.sname = part.sname ∧ cred.ticket.realm = part.srealm ∧
      ∃ data realm, (sent t).getLast? = some (data, realm) ∧
        (part.nonce = data.body.nonce ∨ ∃ e ∈ sinceSent t, Abandoned e)

theorem completedBy_valid (h : completedBy e = some (rep, part)) :
    Valid e.before rep part ∧ e.before.referralInstance part = none := by
  obtain ⟨hrep, hservice⟩ := Option.filter_eq_some_iff.mp h
  exact ⟨accepted_valid hrep, by simpa using hservice⟩

theorem Held.complete {cred : Credential} (h : Held x₀ t x) (hcred : x.credential = some cred) :
    x.state = .complete ∧ ∃ e rep part, Finished t x e rep part ∧ cred = credentialFromRep rep part := by
  have hstate : x.state = .complete := by
    by_contra hne
    rw [h.pending hne] at hcred
    cases hcred
  obtain ⟨e, rep, part, hfin⟩ := h.finished hstate
  exact ⟨hstate, e, rep, part, hfin, Option.some.inj (hcred.symm.trans hfin.credential)⟩

/-- Referral chasing is bounded and keeps the client. -/
theorem referral_chase : Chased tgt (trace call (start tgt target options secondTicket enctype authdata) inputs)
      (run call (start tgt target options secondTicket enctype authdata) inputs) := by
  have h := held_run tgt target options secondTicket enctype authdata inputs
  refine ⟨h.stage.bounded, h.resent, ?_, ?_, ?_⟩
  · intro e he y hresult
    obtain ⟨_, _, _, hfin⟩ := h.finished (h.reported e he y hresult)
    simp [hfin.credential]
  · intro cred hcred
    obtain ⟨-, e, rep, part, hfin, rfl⟩ := h.complete hcred
    obtain ⟨hvalid, -⟩ := completedBy_valid hfin.completed
    have hfixed := h.before e hfin.mem
    exact ⟨hvalid.client.trans hfixed.client, hvalid.crealm_eq.trans hfixed.crealm⟩
  · intro cred hcred
    obtain ⟨hstate, e, rep, part, hfin, rfl⟩ := h.complete hcred
    obtain ⟨hvalid, -⟩ := completedBy_valid hfin.completed
    obtain ⟨data, realm, hget, -, -, hnonce⟩ := h.last (by simp [hstate])
    refine ⟨e, hfin.mem, rep, part, hfin.completed, rfl, hvalid.sname, hvalid.srealm, data, realm, hget, ?_⟩
    exact hnonce.imp_left fun heq => hfin.nonce.trans heq.symm

/-- With a last request that does not canonicalize, the credential is for the service asked for. -/
def ServiceAsRequested (t : List Event) (x : TgsExchange) : Prop :=
  ∀ cred data realm, x.credential = some cred → (sent t).getLast? = some (data, realm) → data.canonicalize = false →
    cred.server.nameString = target.nameString

/-- The service is the one asked for as long as no request falls back. -/
theorem requested_service
    (hplain : ∀ r ∈ sent (trace call (start tgt target options secondTicket enctype authdata) inputs),
      r.1.canonicalize = options.canonicalize) :
    ServiceAsRequested target (trace call (start tgt target options secondTicket enctype authdata) inputs)
      (run call (start tgt target options secondTicket enctype authdata) inputs) := by
  intro cred data realm hcred hget hcanon
  have h := held_run tgt target options secondTicket enctype authdata inputs
  obtain ⟨-, e, rep, part, hfin, rfl⟩ := h.complete hcred
  obtain ⟨hvalid, hservice⟩ := completedBy_valid hfin.completed
  have hfixed := h.before e hfin.mem
  have hoption : e.before.options.canonicalize = false := by
    rw [hfixed.options]
    exact (hplain _ (List.mem_of_getLast? hget)).symm.trans hcanon
  have href : e.before.isReferralTgt part = false := by
    by_contra htrue
    rw [Bool.not_eq_false] at htrue
    have hname := (Bool.and_eq_true_iff.mp htrue).1
    rw [referralInstance, if_pos htrue] at hservice
    simp [isTgsPrincipal, hservice] at hname
  exact (hvalid.service href hoption).trans (congrArg PrincipalName.nameString hfixed.target)

/-- A credential is OK as a delegate only if all referrals on the way to it were. -/
def DelegationEarned (t : List Event) (x : TgsExchange) : Prop :=
  ∀ cred, x.credential = some cred → okAsDelegate cred.flags = true →
    ∀ part ∈ followed t, okAsDelegate part.flags = true

/-- Delegation is earned when the last ticket has the flag only behind a TGT that has it. -/
theorem delegation_earned (hlast : ∀ e ∈ trace call (start tgt target options secondTicket enctype authdata) inputs,
      ∀ r ∈ completedBy e, okAsDelegate r.2.flags = true → okAsDelegate e.before.curTgt.flags = true) :
    DelegationEarned (trace call (start tgt target options secondTicket enctype authdata) inputs)
      (run call (start tgt target options secondTicket enctype authdata) inputs) := by
  intro cred hcred hflag
  have h := held_run tgt target options secondTicket enctype authdata inputs
  obtain ⟨-, e, rep, part, hfin, rfl⟩ := h.complete hcred
  have htgt := hlast e hfin.mem (rep, part) hfin.completed hflag
  rw [hfin.curTgt] at htgt
  exact h.delegates htgt

end

end TgsExchange

end

/-! ## Two runs -/

namespace TgsExchange

section
attribute [local instance] Alphabet.ascii Crypto.toy
local instance tgsKeys : KeyDerivation := ⟨fun _ seed => .ok seed, fun k _ _ _ => .ok k⟩
local instance tgsChecksums : Checksums := ⟨fun _ _ _ _ => .ok []⟩

def sampleName (components : List GeneralString) : PrincipalName := ⟨2, components⟩

/-- `u@J` is the client, `J` and `U` are the realms, `o` and `e` are services. -/
def userName : PrincipalName := sampleName [⟨[117], rfl⟩]
def homeRealm : GeneralString := ⟨[74], rfl⟩
def awayRealm : GeneralString := ⟨[85], rfl⟩
def askedService : PrincipalName := sampleName [⟨[111], rfl⟩]
def otherService : PrincipalName := sampleName [⟨[101], rfl⟩]
def tgtName (realm : GeneralString) : PrincipalName := sampleName [⟨krbtgt, rfl⟩, realm]

def sampleRep (server : PrincipalName) (realm : GeneralString) (code : UInt8) : KdcRep where
  pvno := 5
  msgType := 13
  padata := none
  crealm := homeRealm
  cname := userName
  ticket := ⟨5, realm, server, ⟨18, []⟩⟩
  encPart := ⟨18, [6, code]⟩

def samplePart (server : PrincipalName) (realm : GeneralString) (flags : UInt32) : EncKdcRepPart where
  key := ⟨18, [7]⟩
  nonce := 9
  flags := flags
  authtime := 0
  starttime := none
  endtime := 10
  renewTill := none
  srealm := realm
  sname := server
  caddr := none

/-- Referrals to `U` without and with the flag and with a session key of no known enctype, tickets for the two services,
one of them with another nonce, and an error. -/
local instance tgsDer : TgsDer where
  tgsRep
    | [1] => some (sampleRep (tgtName awayRealm) homeRealm 1)
    | [2] => some (sampleRep askedService awayRealm 2)
    | [3] => some (sampleRep otherService homeRealm 3)
    | [5] => some (sampleRep (tgtName awayRealm) homeRealm 5)
    | [6] => some (sampleRep (tgtName awayRealm) homeRealm 6)
    | [7] => some (sampleRep askedService awayRealm 7)
    | _ => none
  krbError
    | [4] => some ⟨5, 30, sPrincipalUnknown, none⟩
    | _ => none
  encTgsRepPart
    | [1] => some (samplePart (tgtName awayRealm) homeRealm 0)
    | [2] => some (samplePart askedService awayRealm TicketFlags.okAsDelegate)
    | [3] => some (samplePart otherService homeRealm 0)
    | [5] => some (samplePart (tgtName awayRealm) homeRealm TicketFlags.okAsDelegate)
    | [6] => some { samplePart (tgtName awayRealm) homeRealm 0 with key := ⟨99, [7]⟩ }
    | [7] => some { samplePart askedService awayRealm 0 with nonce := 77 }
    | _ => none
  encKdcRepPart _ := none
  methodData _ := none
  paFxFastReply _ := none
  krbFastResponse _ := none
  ticket _ := none
  authorizationData _ := none
  kdcReqBody _ := some []
  paTgsReq _ _ _ _ := .ok []
  prepReq _ _ _ _ _ := .ok []

def sampleTgt (flags : UInt32) : Credential :=
  { credentialFromRep (sampleRep (tgtName homeRealm) homeRealm 0) (samplePart (tgtName homeRealm) homeRealm flags) with
    sessionKey := ⟨18, [5]⟩ }

def sampleOptions (canonicalize : Bool) : TgsOptions := ⟨canonicalize, true, true, [18, 17], 300, true, false⟩

def sampleStart (flags : UInt32) (canonicalize : Bool) : TgsExchange :=
  start (sampleTgt flags) askedService (sampleOptions canonicalize) none 0 none

def sampleInputs (replies : List Bytes) : List Input := replies.map fun reply => ⟨reply, ⟨9, [6], [], 0⟩⟩

/-- The step that follows the referral draws nonce 77 and fails, as it can make no subkey; the exchange then takes a
reply with that nonce, though the one request it sent had nonce 9. -/
theorem completes_with_unsent_nonce :
    let inputs : List Input := [⟨[], ⟨9, [6], [], 0⟩⟩, ⟨[6], ⟨77, [6], [], 0⟩⟩, ⟨[7], ⟨0, [], [], 0⟩⟩]
    (run call (sampleStart 0 true) inputs).state = .complete ∧
      (sent (trace call (sampleStart 0 true) inputs)).map (·.1.body.nonce) = [9] ∧
      ((trace call (sampleStart 0 true) inputs).filterMap completedBy).map (·.2.nonce) = [77] := by
  decide +kernel

/-- A direct request without canonicalization gets the service asked for. -/
theorem requested_service_direct : (run call (sampleStart 0 false) (sampleInputs [[], [2]])).state = .complete ∧
      ServiceAsRequested askedService (trace call (sampleStart 0 false) (sampleInputs [[], [2]]))
        (run call (sampleStart 0 false) (sampleInputs [[], [2]])) :=
  ⟨by decide +kernel, requested_service (sampleTgt 0) askedService (sampleOptions false) none 0 none
    (sampleInputs [[], [2]]) (by decide +kernel)⟩

/-- After the fallback another service is accepted, although the request did not canonicalize. -/
theorem other_service_after_fallback :
    ¬ ServiceAsRequested askedService (trace call (sampleStart 0 true) (sampleInputs [[], [4], [3]]))
      (run call (sampleStart 0 true) (sampleInputs [[], [4], [3]])) := by
  intro h
  have hname := h (credentialFromRep (sampleRep otherService homeRealm 3) (samplePart otherService homeRealm 0))
    _ _ (by decide +kernel) rfl (by decide +kernel)
  exact absurd hname (by decide +kernel)

/-- A chain of TGTs with the flag hands it on. -/
theorem delegation_earned_chain :
    followed (trace call (sampleStart TicketFlags.okAsDelegate true) (sampleInputs [[], [5], [2]])) ≠ [] ∧
      (run call (sampleStart TicketFlags.okAsDelegate true) (sampleInputs [[], [5], [2]])).state = .complete ∧
      DelegationEarned (trace call (sampleStart TicketFlags.okAsDelegate true) (sampleInputs [[], [5], [2]]))
        (run call (sampleStart TicketFlags.okAsDelegate true) (sampleInputs [[], [5], [2]])) :=
  ⟨by decide +kernel, by decide +kernel, delegation_earned (sampleTgt TicketFlags.okAsDelegate) askedService
    (sampleOptions true) none 0 none (sampleInputs [[], [5], [2]]) (by decide +kernel)⟩

/-- The realm behind a referral without the flag grants it with its own ticket. -/
theorem delegation_granted_abroad : ¬ DelegationEarned (trace call (sampleStart 0 true) (sampleInputs [[], [1], [2]]))
      (run call (sampleStart 0 true) (sampleInputs [[], [1], [2]])) := by
  intro h
  have hflag := h (credentialFromRep (sampleRep askedService awayRealm 2)
    (samplePart askedService awayRealm TicketFlags.okAsDelegate)) (by decide +kernel) (by decide +kernel)
    (samplePart (tgtName awayRealm) homeRealm 0) (by decide +kernel)
  exact absurd hflag (by decide +kernel)

end

end TgsExchange

end Krb5Rs
