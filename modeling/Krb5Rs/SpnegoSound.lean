import Krb5Rs.SpnegoMic
import Mathlib.Data.List.TakeWhile

/-!
# No SPNEGO exchange completes unprotected

Both ends keep an invariant over any tokens, also after errors. The acceptor
requires MICs for every mechanism behind the first of the list; the initiator
for every Kerberos mechanism it is made to reselect.
-/

namespace Krb5Rs

namespace Spnego

open Wire (Bytes)
open Stateful (Ends ends_pure ends_throw ends_lift ends_zoom ends_get_bind ends_modify_bind)
open Trace (trace run)

variable {α ν : Type} {token : Option Bytes} {out : Core.MicOut} {c c₁ c₂ c' : Core α ν} {sends : Sends} {oid : Bytes}

/-! ## The acceptor -/

namespace SpnegoAcceptor

variable {supported list : List Bytes} {x x₁ : SpnegoAcceptor α ν} {c : Core α ν} {n : Negotiated} {sendMechtok : Bool}
  {echo : Bytes}

theorem le_of_negotiateMech {i idx : Nat} (h : negotiateMech supported i list = some (idx, echo)) : i ≤ idx := by
  induction list generalizing i with
  | nil => cases h
  | cons oid rest ih =>
    unfold negotiateMech at h
    split at h
    · obtain ⟨rfl, -⟩ := Prod.mk.inj (Option.some.inj h)
      exact Nat.le_refl _
    · exact Nat.le_of_succ_le (ih h)

theorem head_of_negotiateMech (h : negotiateMech supported 0 list = some (0, echo)) : list.head? = some echo := by
  cases list with
  | nil => cases h
  | cons oid rest =>
    unfold negotiateMech at h
    split at h
    · obtain ⟨-, rfl⟩ := Prod.mk.inj (Option.some.inj h)
      rfl
    · exact absurd (le_of_negotiateMech h) (by omega)

structure Ok (x : SpnegoAcceptor α ν) : Prop where
  core : CoreOk x.core
  first : x.first = true → x.core.internalMech = none
  unset : x.core.internalMech = none → x.core.mechComplete = false ∧ x.core.mic = ⟨false, false, false⟩ ∧
    ∀ n ∈ x.core.log, n.isSetup = false
  offered : x.core.internalMech.isSome = true → ∃ list, .offered list x.core.derMechTypes ∈ x.core.log
  needed : ∀ list der, .offered list der ∈ x.core.log → der = x.core.derMechTypes ∧
    (list.head? ≠ x.core.internalMech → x.core.mic.reqd = true)

theorem ok_new (inner : Option α) (negoex : Option ν) (mechTypes : List Bytes) : Ok (new inner negoex mechTypes) where
  core := ⟨nofun, nofun, rfl⟩
  first := fun _ => rfl
  unset := fun _ => ⟨rfl, rfl, nofun⟩
  offered := nofun
  needed := nofun

theorem Ok.works (h : Ok x) (hset : x.core.internalMech.isSome = true) (hworks : Works x.core c) :
    Ok { x with core := c } where
  core := hworks.ok h.core
  first := fun hfirst => hworks.internal.trans (h.first hfirst)
  unset := by
    intro hnone
    rw [← hworks.internal, hnone] at hset
    cases hset
  offered := by
    intro _
    obtain ⟨list, hlist⟩ := h.offered hset
    exact ⟨list, hworks.der ▸ hworks.log _ hlist⟩
  needed := by
    intro list der hlist
    obtain ⟨hder, hneeded⟩ := h.needed list der (hworks.setup _ hlist rfl)
    refine ⟨hder.trans hworks.der.symm, fun hhead => hworks.reqd (hneeded ?_)⟩
    rwa [← hworks.internal]

structure Ready (x : SpnegoAcceptor α ν) (n : Negotiated) (x' : SpnegoAcceptor α ν) : Prop
    extends Kept core Ok x x' where
  sent : x'.core.mic.sent = x.core.mic.sent
  state : n.negState ≠ .acceptCompleted
  hints : n.hints = true → n.mechtokIn = none ∧ x'.core.mechComplete = false
  live : n.hints = false → x'.core.internalMech.isSome = true

theorem kept_of_ok {x' : SpnegoAcceptor α ν} (h : Ok x) (hnone : x.core.internalMech = none) (hok : Ok x')
    (hlog : ∀ n ∈ x.core.log, n ∈ x'.core.log) : Kept core Ok x x' := by
  refine ⟨hok, hlog, fun hsent => ?_⟩
  rw [(h.unset hnone).2.1] at hsent
  cases hsent

section
variable [SpnegoDer] {x : SpnegoAcceptor α ν}

theorem accHints_ends (h : Ok x) (hfirst : x.first = true) :
    Ends (Ready x) (fun x' => Kept core Ok x x' ∧ x'.core.mic.sent = x.core.mic.sent) accHints x := by
  have hnone := h.first hfirst
  obtain ⟨hcomplete, hmic, hlog⟩ := h.unset hnone
  refine ⟨kept_of_ok h hnone ?_ fun _ hn => hn, rfl, by decide, fun _ => ⟨rfl, hcomplete⟩, nofun⟩
  refine ⟨⟨h.core.completed, ?_, h.core.once⟩, h.first, h.unset, ?_, ?_⟩
  · intro hrcvd
    rw [hmic] at hrcvd
    cases hrcvd
  · intro hset
    rw [hnone] at hset
    cases hset
  · intro list der hlist
    cases hlog _ hlist

theorem accNew_ends (input : Bytes) (h : Ok x) (hnone : x.core.internalMech = none) :
    Ends (Ready x) (fun x' => Kept core Ok x x' ∧ x'.core.mic.sent = x.core.mic.sent) (accNew input) x := by
  obtain ⟨hcomplete, hmic, hlog⟩ := h.unset hnone
  have hfail : Kept core Ok x { x with first := false } :=
    kept_of_ok h hnone ⟨h.core, nofun, h.unset, h.offered, h.needed⟩ fun _ hn => hn
  unfold accNew
  rw [ends_modify_bind]
  refine Ends.bind (Q := fun _ x' => x' = { x with first := false }) ?_ fun init x' hx' => ?_
  · exact ends_lift (fun _ _ => rfl) ⟨hfail, rfl⟩
  subst hx'
  rw [ends_get_bind]
  cases hfound : negotiateMech x.core.mechTypes 0 init.1.mechTypes with
  | none => exact ends_throw ⟨hfail, rfl⟩
  | some found =>
    obtain ⟨idx, echo⟩ := found
    refine ⟨kept_of_ok h hnone ⟨⟨?_, ?_, ?_⟩, ?_, ?_, ?_, ?_⟩ ?_, rfl, ?_, ?_, fun _ => rfl⟩
    · intro hc
      rw [hcomplete] at hc
      cases hc
    · intro hr
      change x.core.mic.rcvd = true at hr
      rw [hmic] at hr
      cases hr
    · exact h.core.once
    · intro hf
      cases hf
    · intro hn
      cases hn
    · exact fun _ => ⟨_, List.mem_cons_self⟩
    · intro list der hlist
      rcases List.mem_cons.mp hlist with heq | hlist
      · obtain ⟨rfl, rfl⟩ := Note.offered.inj heq
        refine ⟨rfl, fun hhead => ?_⟩
        by_cases hidx : idx = 0
        · subst hidx
          exact absurd (head_of_negotiateMech hfound) hhead
        · simp [hidx]
      · cases hlog _ hlist
    · exact fun n hn => List.mem_cons_of_mem _ hn
    · by_cases hidx : idx = 0 <;> simp [hidx]
    · intro hhints
      cases hhints

theorem negotiate_ends (input : Bytes) (h : Ok x) :
    Ends (Ready x) (fun x' => Kept core Ok x x' ∧ x'.core.mic.sent = x.core.mic.sent) (negotiate input) x := by
  have hsame : Kept core Ok x x := ⟨h, fun _ hn => hn, fun _ => rfl⟩
  change Ends _ _ (if x.first && input.isEmpty then _ else if x.first || x.core.internalMech.isNone then _ else _) x
  split
  case isTrue hhints => exact accHints_ends h (Bool.and_eq_true_iff.mp hhints).1
  case isFalse =>
    split
    case isTrue hnew =>
      refine accNew_ends input h ?_
      rcases Bool.or_eq_true_iff.mp hnew with hfirst | hnone
      · exact h.first hfirst
      · exact Option.isNone_iff_eq_none.mp hnone
    case isFalse hset =>
      refine ends_lift (fun n hn => ?_) ⟨hsame, rfl⟩
      obtain ⟨body, -, hn⟩ := Wire.bind_eq_ok.mp hn
      obtain ⟨r, -, hn⟩ := Wire.bind_eq_ok.mp hn
      split at hn
      · cases hn
      cases hn
      refine ⟨hsame, rfl, nofun, nofun, fun _ => ?_⟩
      simp only [Bool.or_eq_true, not_or, Option.isNone_iff_eq_none] at hset
      exact Option.isSome_iff_ne_none.mpr hset.2

end

/-! ### The mechanism and the MICs -/

structure Accepted (n : Negotiated) (c : Core α ν) (r : NegState × Option Bytes) (c' : Core α ν) : Prop where
  works : Works c c'
  mic : c'.mic = c.mic
  unread : n.mechtokIn = none → c' = c
  complete : r.1 = .acceptCompleted → n.negState = .acceptCompleted ∨
    c'.mechComplete = true ∧ (c.mic.reqd = true → c.integ = false)

theorem Ok.opened (h : Ok x) (opened sendSupportedMech : Bool) :
    Ok { x with core := { x.core with opened }, sendSupportedMech } :=
  ⟨⟨h.core.completed, h.core.received, h.core.once⟩, h.first, h.unset, h.offered, h.needed⟩

theorem Ready.works (h : Ready x n x₁) (hlive : n.hints = false) (hworks : Works x₁.core c)
    (opened sendSupportedMech : Bool) :
    Kept core Ok x { x₁ with core := { c with opened }, sendSupportedMech } where
  ok := (h.ok.works (h.live hlive) hworks).opened opened sendSupportedMech
  log := fun m hm => hworks.log m (h.log m hm)
  der := fun hsent => hworks.der.trans (h.der hsent)

theorem Ready.hinted (h : Ready x n x₁) (opened sendSupportedMech : Bool) :
    Kept core Ok x { x₁ with core := { x₁.core with opened }, sendSupportedMech } where
  ok := h.ok.opened opened sendSupportedMech
  log := h.log
  der := h.der

theorem finished_of_complete {r : NegState × Option Bytes}
    {opened : Bool} (hstate : n.negState ≠ .acceptCompleted) (hacc : Accepted n c r c₁)
    (hmics : Exchanged sendMechtok r.1 c₁ c₂ out) (hcomplete : out.negState = .acceptCompleted) :
    Finished { c₂ with opened } := by
  cases hdue : c₁.mechComplete && c₁.integ with
  | true =>
    refine ⟨hmics.mechComplete.trans (Bool.and_eq_true_iff.mp hdue).1, fun _ hreqd => ?_⟩
    exact hmics.both hdue hreqd hcomplete
  | false =>
    obtain ⟨rfl, rfl⟩ := hmics.skipped hdue
    rcases hacc.complete hcomplete with h | ⟨hmech, -⟩
    · exact absurd h hstate
    refine ⟨hmech, fun hinteg => ?_⟩
    change c₂.integ = true at hinteg
    rw [hmech, hinteg] at hdue
    cases hdue

theorem mic_in_reply {negState : NegState} {m : Bytes} (hhints : n.hints = false)
    (hmics : Exchanged sendMechtok negState c c' out) (hm : out.mic = some m) :
    (x.reply n token out).bind Token.mic = some m := by
  have hsend : out.noTokenSend ≠ some true := by
    rcases hmics.due (by simp [hm]) with h | ⟨h, -⟩ <;> simp [h]
  simp [reply, hhints, hsend, Token.mic, hm]

variable [SpnegoDer] [Krb5Mech Bytes α] [NegoexMech Bytes ν]

theorem acceptToken_ends (token : Bytes) (n : Negotiated) (htoken : n.mechtokIn = some token) (c : Core α ν) :
    Ends (Accepted n c) (fun c' => Works c c' ∧ c'.mic = c.mic ∧ n.mechtokIn ≠ none) (acceptToken token n.negState) c := by
  have hsome : n.mechtokIn ≠ none := by
    rw [htoken]
    exact Option.some_ne_none token
  unfold acceptToken
  rw [ends_get_bind]
  refine Ends.bind (Q := fun _ c' => c' = c) ?_ fun _ c' hc' => ?_
  · exact ends_lift (fun _ _ => rfl) ⟨.refl c, rfl, hsome⟩
  subst hc'
  refine ((callMech_ends token c').mono (fun _ _ h => h) fun c₁ h => ⟨h.works, h.mic, hsome⟩).bind fun step c₁ h₁ => ?_
  obtain ⟨-, hcalls⟩ := h₁
  refine (recordStep_ends step c₁).bind fun out c₂ h₂ => ?_
  refine ⟨hcalls.works.trans h₂.works, h₂.mic.trans hcalls.mic, ?_, ?_⟩
  · exact fun h => absurd h hsome
  · intro hstate
    cases step with
    | continueNeeded t => exact .inl hstate
    | complete t =>
      unfold stepState at hstate
      dsimp only at hstate
      split at hstate
      case isFalse => exact .inl hstate
      case isTrue hdone =>
        refine .inr ⟨by simp [h₂.complete, MechStep.isComplete], fun hreqd => ?_⟩
        simpa [hreqd] using hdone

theorem callAcc_ends (n : Negotiated) (c : Core α ν) :
    Ends (Accepted n c) (fun c' => Works c c' ∧ c'.mic = c.mic ∧ n.mechtokIn ≠ none) (callAcc n) c := by
  unfold callAcc
  cases htoken : n.mechtokIn with
  | none => exact ends_pure ⟨.refl c, rfl, fun _ => rfl, .inl⟩
  | some token =>
    dsimp only
    split
    · refine ends_pure ⟨.refl c, rfl, fun _ => rfl, .inl⟩
    · have h := acceptToken_ends token n htoken c
      rw [htoken] at h
      exact h

theorem step_ok : StepOk core Ok (step : Bytes → EStateM GssError (SpnegoAcceptor α ν) Outcome) := by
  intro input x hok
  refine (negotiate_ends input hok).bind fun n x₁ hready => ?_
  refine Ends.bind (Q := fun r x₂ => ∃ c₁, Accepted n x₁.core r c₁ ∧ x₂ = { x₁ with core := c₁ }) ?_ fun r x₂ h₂ => ?_
  · refine ends_zoom ((callAcc_ends n x₁.core).mono (fun r c₁ h => ⟨c₁, h, rfl⟩) fun c₁ h => ?_)
    obtain ⟨hworks, hmic, hsome⟩ := h
    have hlive : n.hints = false := by
      by_contra hhints
      exact hsome (hready.hints (by simpa using hhints)).1
    refine ⟨hready.works hlive hworks c₁.opened x₁.sendSupportedMech, ?_⟩
    rw [← hready.sent, ← hmic]
  obtain ⟨c₁, hacc, rfl⟩ := h₂
  refine Ends.bind (Q := fun out x₃ => ∃ c₂, Exchanged (nonempty r.2) r.1 c₁ c₂ out ∧ x₃ = { x₁ with core := c₂ }) ?_
    fun out x₃ h₃ => ?_
  · refine ends_zoom ((exchangeMics_ends _ _ _ c₁).mono (fun out c₂ h => ⟨c₂, h, rfl⟩) fun c₂ h => ?_)
    obtain ⟨hworks, hsent, hdue⟩ := h
    have hlive : n.hints = false := by
      by_contra hhints
      obtain ⟨htok, hmech⟩ := hready.hints (by simpa using hhints)
      rw [hacc.unread htok, hmech] at hdue
      cases hdue
    refine ⟨hready.works hlive (hacc.works.trans hworks) c₂.opened x₁.sendSupportedMech, ?_⟩
    rw [hsent, hacc.mic, hready.sent]
  obtain ⟨c₂, hmics, rfl⟩ := h₃
  refine ⟨?_, ?_, ?_⟩
  · cases hhints : n.hints with
    | false => exact hready.works hhints (hacc.works.trans hmics.works) _ _
    | true =>
      obtain ⟨htok, hmech⟩ := hready.hints hhints
      have hsame := hacc.unread htok
      obtain ⟨-, hsame'⟩ := hmics.skipped (by rw [hsame, hmech]; rfl)
      rw [hsame', hsame]
      exact hready.hinted _ _
  · intro hcomplete
    exact finished_of_complete hready.state hacc hmics (of_decide_eq_true hcomplete)
  · intro hsent
    rcases hmics.sent hsent with hold | ⟨m, hm, hsigned⟩
    · left
      rw [← hready.sent, ← hacc.mic]
      exact hold
    · cases hhints : n.hints with
      | false => exact .inr ⟨m, mic_in_reply hhints hmics hm, hsigned⟩
      | true =>
        obtain ⟨htok, hmech⟩ := hready.hints hhints
        obtain ⟨hout, -⟩ := hmics.skipped (by rw [hacc.unread htok, hmech]; rfl)
        rw [hout] at hm
        cases hm

end SpnegoAcceptor

/-! ## The initiator -/

namespace SpnegoInitiator

/-- No mechanism of the list can be initiated. -/
def Stuck (c : Core α ν) : Prop :=
  (∀ oid ∈ c.mechTypes, canInit c oid = false) ∧ ∀ oid, c.internalMech = some oid → oid ∈ c.mechTypes

theorem works_present (h : Works c c') : c'.present = c.present := by
  unfold Core.present
  rw [h.integ, h.inner, h.negoex]

/-- A mechanism that we are made to reselect: a Kerberos one only with MICs. -/
structure Reselected (supported : Bytes) (negState : Option NegState) (c c' : Core α ν) : Prop where
  eq : c' = { c with
    mechComplete := false
    mic := ⟨negState = some .requestMic, c.mic.sent, c.mic.rcvd⟩
    internalMech := some supported
    log := .reselected supported :: c.log }
  mem : supported ∈ c.mechTypes
  kerb : isKerbMech supported = true → negState = some .requestMic

theorem reselect_ends (supported : Bytes) (negState : Option NegState) (c : Core α ν) :
    Ends (fun sends c' => Reselected supported negState c c' ∧ sends = ⟨false, true, false⟩)
      (fun c' => c' = c ∨ Reselected supported negState c c') (reselect supported negState) c := by
  unfold reselect
  rw [ends_get_bind]
  split
  case isTrue => exact ends_throw (.inl rfl)
  case isFalse hmem =>
    split
    case isTrue => exact ends_throw (.inl rfl)
    case isFalse hstate =>
      rw [ends_modify_bind, ends_get_bind]
      have hres : Reselected supported negState c { c with
          mechComplete := false
          mic := ⟨negState = some .requestMic, c.mic.sent, c.mic.rcvd⟩
          internalMech := some supported
          log := .reselected supported :: c.log } := by
        refine ⟨rfl, by simpa using hmem, fun hkerb => ?_⟩
        by_contra hne
        refine hstate ⟨hne, fun hntlm => ?_⟩
        rw [hntlm.2] at hkerb
        exact absurd hkerb (by decide)
      split
      · exact ends_pure ⟨hres, rfl⟩
      · exact ends_throw (.inr hres)

theorem sameMech_ok {mechComplete : Bool} (h : sameMech mechComplete token = .ok sends) :
    (mechComplete = false → sends.cont = true) ∧ (sends.noToken = true → mechComplete = true) := by
  unfold sameMech at h
  repeat' split at h
  all_goals cases h
  all_goals simp_all

theorem later_ok {r : NegTokenResp} (h : later c r = .ok sends) :
    (c.mechComplete = false → sends.cont = true) ∧ (sends.noToken = true → c.mechComplete = true) := by
  unfold later at h
  repeat' split at h
  all_goals cases h
  all_goals simp_all

section
variable [SpnegoDer]

def Listed (c : Core α ν) : Prop :=
  c.derMechTypes = SpnegoDer.putMechSet c.mechTypes ∧ .offered c.mechTypes c.derMechTypes ∈ c.log

structure Ok (x : SpnegoInitiator α ν) : Prop where
  core : CoreOk x.core
  fresh : x.fresh = true → x.core.mechComplete = false ∧ x.core.mic = ⟨false, false, false⟩ ∧
    x.core.internalMech = none ∧ x.core.log = []
  present : x.core.mechComplete = true → x.core.present = true
  listed : x.fresh = false → Listed x.core ∨ Stuck x.core
  first : ∀ list der, .offered list der ∈ x.core.log → list = x.core.mechTypes ∧ der = x.core.derMechTypes ∧
    (list.head? ≠ x.core.internalMech → ∃ mech, .reselected mech ∈ x.core.log)
  reselected : (∃ mech, .reselected mech ∈ x.core.log) → (∃ oid, x.core.internalMech = some oid ∧ isKerbMech oid) →
    x.core.mic.reqd = true

theorem ok_new (inner : Option α) (negoex : Option ν) (mechTypes : List Bytes) : Ok (new inner negoex mechTypes) where
  core := ⟨nofun, nofun, rfl⟩
  fresh := fun _ => ⟨rfl, rfl, rfl, rfl⟩
  present := nofun
  listed := nofun
  first := nofun
  reselected := nofun

variable {c : Core α ν} {x : SpnegoInitiator α ν} {sends : Sends} {r : Sends × Option Bytes}

theorem works_listed (h : Works c c') (hc : Listed c ∨ Stuck c) : Listed c' ∨ Stuck c' := by
  rcases hc with ⟨hder, hlog⟩ | ⟨hinit, hmem⟩
  · left
    refine ⟨by rw [h.der, h.mechTypes, hder], ?_⟩
    rw [h.mechTypes, h.der]
    exact h.log _ hlog
  · right
    unfold Stuck canInit
    rw [h.mechTypes, h.internal, h.inner, h.negoex]
    exact ⟨hinit, hmem⟩

theorem Ok.works (h : Ok x) (hfresh : x.fresh = false) (hworks : Works x.core c)
    (hpresent : c.mechComplete = true → x.core.mechComplete = true ∨ x.core.present = true) :
    Ok { x with core := c } where
  core := hworks.ok h.core
  fresh := by
    intro hf
    rw [hfresh] at hf
    cases hf
  present := by
    intro hc
    rw [works_present hworks]
    exact (hpresent hc).elim h.present id
  listed := fun hf => works_listed hworks (h.listed hf)
  first := by
    intro list der hlist
    obtain ⟨hmech, hder, hhead⟩ := h.first list der (hworks.setup _ hlist rfl)
    refine ⟨hmech.trans hworks.mechTypes.symm, hder.trans hworks.der.symm, fun hne => ?_⟩
    obtain ⟨mech, hm⟩ := hhead (by rwa [← hworks.internal])
    exact ⟨mech, hworks.log _ hm⟩
  reselected := by
    rintro ⟨mech, hm⟩ hkerb
    rw [hworks.internal] at hkerb
    exact hworks.reqd (h.reselected ⟨mech, hworks.setup _ hm rfl⟩ hkerb)

/-- After the negotiation: a token is due while the mechanism is not complete, and known not to be owed only when
it is. -/
structure Ready (x : SpnegoInitiator α ν) (sends : Sends) (x' : SpnegoInitiator α ν) : Prop
    extends Kept core Ok x x' where
  sent : x'.core.mic.sent = x.core.mic.sent
  settled : x'.fresh = false
  due : x'.core.mechComplete = false → sends.init = true ∨ sends.cont = true
  noToken : sends.noToken = true → x'.core.mechComplete = true

def Failed (x x' : SpnegoInitiator α ν) : Prop := Kept core Ok x x' ∧ x'.core.mic.sent = x.core.mic.sent

theorem initNew_ends (h : Ok x) (hfresh : x.fresh = true) : Ends (Ready x) (Failed x) initNew x := by
  obtain ⟨hcomplete, hmic, hnone, hlog⟩ := h.fresh hfresh
  have hsent : x.core.mic.sent = true → False := by
    rw [hmic]
    nofun
  unfold initNew
  rw [ends_modify_bind, ends_get_bind]
  cases hdrop : x.core.mechTypes.dropWhile fun oid => !canInit x.core oid with
  | nil =>
    refine ends_throw ⟨⟨⟨h.core, nofun, h.present, fun _ => .inr ⟨?_, ?_⟩, h.first, h.reselected⟩, fun _ hn => hn,
      fun _ => rfl⟩, rfl⟩
    · intro oid hoid
      simpa using List.dropWhile_eq_nil_iff.mp hdrop oid hoid
    · intro oid hoid
      rw [hnone] at hoid
      cases hoid
  | cons oid rest =>
    refine ⟨⟨⟨⟨?_, ?_, ?_⟩, nofun, ?_, ?_, ?_, ?_⟩, fun n hn => List.mem_cons_of_mem _ hn, fun hs => (hsent hs).elim⟩,
      rfl, rfl, fun _ => .inl rfl, nofun⟩
    · intro hc
      rw [hcomplete] at hc
      cases hc
    · intro hr
      rw [hmic] at hr
      cases hr
    · exact h.core.once
    · intro hc
      rw [hcomplete] at hc
      cases hc
    · exact fun _ => .inl ⟨rfl, List.mem_cons_self⟩
    · intro list der hlist
      rcases List.mem_cons.mp hlist with heq | hlist
      · obtain ⟨rfl, rfl⟩ := Note.offered.inj heq
        exact ⟨rfl, rfl, fun hne => absurd rfl hne⟩
      · change _ ∈ x.core.log at hlist
        rw [hlog] at hlist
        cases hlist
    · rintro ⟨mech, hm⟩ -
      rcases List.mem_cons.mp hm with heq | hm
      · cases heq
      · change _ ∈ x.core.log at hm
        rw [hlog] at hm
        cases hm

theorem Reselected.kept {supported : Bytes} {negState : Option NegState}
    (h : Reselected supported negState x.core c) (hok : Ok x) (hfresh : x.fresh = false) (negoDone : Bool) :
    Kept core Ok x { x with core := c, negoDone } := by
  have heq := h.eq
  subst heq
  refine ⟨⟨⟨nofun, ?_, hok.core.once⟩, ?_, nofun, ?_, ?_, ?_⟩, fun n hn => List.mem_cons_of_mem _ hn, fun _ => rfl⟩
  · intro hr
    obtain ⟨m, hm⟩ := hok.core.received hr
    exact ⟨m, List.mem_cons_of_mem _ hm⟩
  · intro hf
    rw [hfresh] at hf
    cases hf
  · intro hf
    rcases hok.listed hf with ⟨hder, hlog⟩ | ⟨hinit, -⟩
    · exact .inl ⟨hder, List.mem_cons_of_mem _ hlog⟩
    · refine .inr ⟨hinit, fun oid hoid => ?_⟩
      cases hoid
      exact h.mem
  · intro list der hlist
    rcases List.mem_cons.mp hlist with heq | hlist
    · cases heq
    · obtain ⟨hmech, hder, -⟩ := hok.first list der hlist
      exact ⟨hmech, hder, fun _ => ⟨supported, List.mem_cons_self⟩⟩
  · rintro - ⟨oid, hoid, hkerb⟩
    cases hoid
    exact decide_eq_true (h.kerb hkerb)

theorem kept_same (h : Ok x) (negoDone : Bool) : Kept core Ok x { x with negoDone } :=
  ⟨⟨h.core, h.fresh, h.present, h.listed, h.first, h.reselected⟩, fun _ hn => hn, fun _ => rfl⟩

theorem initReply_ends (r : NegTokenResp) (h : Ok x) (hfresh : x.fresh = false) :
    Ends (Ready x) (Failed x) (initReply r) x := by
  unfold initReply
  rw [ends_get_bind]
  split
  · exact ends_throw ⟨kept_same h x.negoDone, rfl⟩
  split
  · refine ends_lift (fun sends hsends => ?_) ⟨kept_same h x.negoDone, rfl⟩
    obtain ⟨hdue, hno⟩ := later_ok hsends
    exact ⟨kept_same h x.negoDone, rfl, hfresh, fun hc => .inr (hdue hc), hno⟩
  · refine Ends.bind (Q := fun sends x' => Ready x sends { x' with negoDone := true }) ?_ fun sends x' hx' =>
      ends_modify_bind.mpr (ends_pure hx')
    refine ends_zoom ?_
    unfold initNego
    rw [ends_get_bind]
    dsimp only
    split
    · refine (reselect_ends _ _ x.core).mono (fun sends c' h' => ?_) fun c' h' => ?_
      · obtain ⟨hres, rfl⟩ := h'
        exact ⟨hres.kept h hfresh true, by rw [hres.eq], hfresh, fun _ => .inr rfl, nofun⟩
      · rcases h' with rfl | hres
        · exact ⟨kept_same h x.negoDone, rfl⟩
        · exact ⟨hres.kept h hfresh x.negoDone, by rw [hres.eq]⟩
    · refine ends_lift (fun sends hsends => ?_) ⟨kept_same h x.negoDone, rfl⟩
      obtain ⟨hdue, hno⟩ := sameMech_ok hsends
      exact ⟨kept_same h true, rfl, hfresh, fun hc => .inr (hdue hc), hno⟩

theorem negotiate_ends (input : Option Bytes) (h : Ok x) :
    Ends (fun n => Ready x n.1) (Failed x) (negotiate input) x := by
  unfold negotiate
  rw [ends_get_bind]
  split
  case isTrue hfresh => exact (initNew_ends h hfresh).bind fun sends x' hx' => ends_pure hx'
  case isFalse hfresh =>
    rw [Bool.not_eq_true] at hfresh
    refine Ends.bind (Q := fun _ x' => x' = x) ?_ fun r x' hx' => ?_
    · exact ends_lift (fun _ _ => rfl) ⟨kept_same h x.negoDone, rfl⟩
    subst hx'
    exact (initReply_ends r h hfresh).bind fun sends x' hx' => ends_pure hx'

/-! ### The mechanism and the MICs -/

structure Initiated (sends : Sends) (c : Core α ν) (r : Sends × Option Bytes) (c' : Core α ν) : Prop where
  works : Works c c'
  mic : c'.mic = c.mic
  present : c'.mechComplete = true → c.mechComplete = true ∨ c.present = true
  token : nonempty r.2 = true → c.mechComplete = false ∧ r.1 = sends
  noToken : r.1.noToken = true → c'.mechComplete = true ∧ nonempty r.2 = false

omit [SpnegoDer] in
theorem stepSends_token {step : MechStep} (h : nonempty token = true) : stepSends c step token sends = sends := by
  cases step <;> simp [stepSends, h]

omit [SpnegoDer] in
theorem stepSends_noToken {step : MechStep}
    (h : (stepSends c step token sends).noToken = true) (hsends : sends.noToken = false) :
    step.isComplete = true ∧ nonempty token = false := by
  cases step with
  | continueNeeded t => simp [stepSends, hsends] at h
  | complete t =>
    refine ⟨rfl, ?_⟩
    cases hn : nonempty token with
    | false => rfl
    | true => simp [stepSends, hn, hsends] at h

theorem Ready.works {x₁ : SpnegoInitiator α ν} (h : Ready x sends x₁) (hworks : Works x₁.core c)
    (hpresent : c.mechComplete = true → x₁.core.mechComplete = true ∨ x₁.core.present = true) (opened : Bool) :
    Kept core Ok x { x₁ with core := { c with opened } } := by
  have hok := h.ok.works h.settled hworks hpresent
  refine ⟨⟨⟨hok.core.completed, hok.core.received, hok.core.once⟩, hok.fresh, hok.present, hok.listed, hok.first,
    hok.reselected⟩, fun m hm => hworks.log m (h.log m hm), fun hsent => hworks.der.trans (h.der hsent)⟩

omit [SpnegoDer] in
theorem finished_of_complete {opened : Bool}
    (hinit : Initiated sends c r c₁) (hmics : Exchanged (nonempty r.2) .acceptIncomplete c₁ c₂ out)
    (hcomplete : ((micSends r.1 out).noToken || out.negState = .acceptCompleted) = true) :
    Finished { c₂ with opened } := by
  by_cases hstate : out.negState = .acceptCompleted
  · cases hdue : c₁.mechComplete && c₁.integ with
    | false =>
      rw [(hmics.skipped hdue).1] at hstate
      cases hstate
    | true =>
      refine ⟨hmics.mechComplete.trans (Bool.and_eq_true_iff.mp hdue).1, fun _ hreqd => ?_⟩
      exact hmics.both hdue hreqd hstate
  · have hno : (micSends r.1 out).noToken = true := by simpa [hstate] using hcomplete
    cases hdecided : out.noTokenSend with
    | some noToken =>
      simp only [micSends, hdecided] at hno
      subst hno
      exact absurd (hmics.decided hdecided) hstate
    | none =>
      simp only [micSends, hdecided] at hno
      obtain ⟨hmech, htoken⟩ := hinit.noToken hno
      refine ⟨hmics.mechComplete.trans hmech, fun hinteg hreqd => ?_⟩
      have hinteg₁ := hmics.works.integ ▸ hinteg
      exact hmics.final (by rw [hmech, hinteg₁]; rfl) hreqd htoken

omit [SpnegoDer] in
theorem mic_in_message {c₃ : Core α ν} {m : Bytes}
    (hdue : c.mechComplete = false → sends.init = true ∨ sends.cont = true) (hinit : Initiated sends c r c₁)
    (hmics : Exchanged (nonempty r.2) .acceptIncomplete c₁ c₂ out) (hm : out.mic = some m) :
    (message c₃ (micSends r.1 out) r.2 out).bind Token.mic = some m := by
  have hsends : (micSends r.1 out).init = true ∨ (micSends r.1 out).cont = true := by
    rcases hmics.due (by simp [hm]) with h | ⟨h, htoken⟩
    · simp [micSends, h]
    · obtain ⟨hmech, hr⟩ := hinit.token htoken
      simpa [micSends, h, hr] using hdue hmech
  unfold message
  cases hi : (micSends r.1 out).init with
  | true => simp [Token.mic, hm]
  | false => simp [Token.mic, hm, (hsends.resolve_left (by simp [hi]))]

section
variable [Krb5Mech (Option Bytes) α] [NegoexMech (Option Bytes) ν]

omit [SpnegoDer] in
theorem callInit_ends (sends : Sends) (resp : Option NegTokenResp) (c : Core α ν)
    (hno : sends.noToken = true → c.mechComplete = true) :
    Ends (Initiated sends c) (fun c' => Works c c' ∧ c'.mic = c.mic ∧
      (c'.mechComplete = true → c.mechComplete = true ∨ c.present = true)) (callInit sends resp) c := by
  unfold callInit
  rw [ends_get_bind]
  split
  case isTrue hmech => exact ends_pure ⟨.refl c, rfl, .inl, nofun, fun _ => ⟨hmech, rfl⟩⟩
  case isFalse hmech =>
    rw [Bool.not_eq_true] at hmech
    have hsends : sends.noToken = false := by
      by_contra h
      rw [hno (by simpa using h)] at hmech
      cases hmech
    unfold initToken
    refine ((callMech_ends _ c).mono (fun _ _ h => h) fun c₁ h => ?_).bind fun step c₁ h₁ => ?_
    · refine ⟨h.works, h.mic, fun hc => .inl (h.mechComplete ▸ hc)⟩
    obtain ⟨hpresent, hcalls⟩ := h₁
    refine (recordStep_ends step c₁).bind fun token c₂ h₂ => ?_
    have hworks := hcalls.works.trans h₂.works
    have hmic := h₂.mic.trans hcalls.mic
    split
    · exact ends_throw ⟨hworks, hmic, fun _ => .inr hpresent⟩
    · refine ends_pure ⟨hworks, hmic, fun _ => .inr hpresent, fun ht => ⟨hmech, stepSends_token ht⟩, fun ht => ?_⟩
      obtain ⟨hdone, htoken⟩ := stepSends_noToken ht hsends
      exact ⟨by rw [h₂.complete, hdone, Bool.or_true], htoken⟩

theorem step_ok : StepOk core Ok (step : Option Bytes → EStateM GssError (SpnegoInitiator α ν) Outcome) := by
  intro input x hok
  refine (negotiate_ends input hok).bind fun n x₁ hready => ?_
  refine Ends.bind (Q := fun r x₂ => ∃ c₁, Initiated n.1 x₁.core r c₁ ∧ x₂ = { x₁ with core := c₁ }) ?_
    fun r x₂ h₂ => ?_
  · refine ends_zoom ((callInit_ends n.1 n.2 x₁.core hready.noToken).mono (fun r c₁ h => ⟨c₁, h, rfl⟩) fun c₁ h => ?_)
    obtain ⟨hworks, hmic, hpresent⟩ := h
    refine ⟨hready.works hworks hpresent c₁.opened, ?_⟩
    rw [← hready.sent, ← hmic]
  obtain ⟨c₁, hinit, rfl⟩ := h₂
  refine Ends.bind (Q := fun out x₃ => ∃ c₂, Exchanged (nonempty r.2) .acceptIncomplete c₁ c₂ out ∧
    x₃ = { x₁ with core := c₂ }) ?_ fun out x₃ h₃ => ?_
  · refine ends_zoom ((exchangeMics_ends _ _ _ c₁).mono (fun out c₂ h => ⟨c₂, h, rfl⟩) fun c₂ h => ?_)
    obtain ⟨hworks, hsent, hdue⟩ := h
    have hpresent := hinit.present (Bool.and_eq_true_iff.mp hdue).1
    refine ⟨hready.works (hinit.works.trans hworks) (fun _ => hpresent) c₂.opened, ?_⟩
    rw [hsent, hinit.mic, hready.sent]
  obtain ⟨c₂, hmics, rfl⟩ := h₃
  refine ⟨?_, ?_, ?_⟩
  · refine hready.works (hinit.works.trans hmics.works) (fun hc => hinit.present ?_) _
    rw [← hmics.mechComplete]
    exact hc
  · exact finished_of_complete hinit hmics
  · intro hsent
    rcases hmics.sent hsent with hold | ⟨m, hm, hsigned⟩
    · left
      rw [← hready.sent, ← hinit.mic]
      exact hold
    · exact .inr ⟨m, mic_in_message hready.due hinit hmics hm, hsigned⟩

end

end

end SpnegoInitiator

/-! ## Either end -/

/-- The MIC of the peer over the list was verified, and ours went out. -/
def MicsExchanged {σ ι : Type} (t : List (Trace.Event GssError σ ι Outcome)) (c : Core α ν) : Prop :=
  (∃ m, .verified c.derMechTypes m ∈ c.log) ∧ Emitted t c

/-- The acceptor after the inputs has accepted one MIC at most; if the next step reports completion, the mechanism
has, and a Kerberos mechanism behind the first of the initiator's list is protected. -/
def SpnegoAcceptor.Safe [SpnegoDer] [Krb5Mech Bytes α] [NegoexMech Bytes ν] (x : SpnegoAcceptor α ν)
    (inputs : List Bytes) : Prop :=
  (run step x inputs).core.log.countP Note.isVerified ≤ 1 ∧
  ∀ input o y, step input (run step x inputs) = .ok o y → o.complete = true →
    .completed y.core.internalMech ∈ y.core.log ∧
    ∃ oid list, y.core.internalMech = some oid ∧ .offered list y.core.derMechTypes ∈ y.core.log ∧
      (isKerbMech oid = true → list.head? ≠ some oid → MicsExchanged (trace step x (inputs ++ [input])) y.core)

/-- The same for the initiator: a Kerberos mechanism that is not the first of the list it sent, or that it was made to
reselect, is protected. -/
def SpnegoInitiator.Safe [SpnegoDer] [Krb5Mech (Option Bytes) α] [NegoexMech (Option Bytes) ν]
    (x : SpnegoInitiator α ν) (inputs : List (Option Bytes)) : Prop :=
  (run step x inputs).core.log.countP Note.isVerified ≤ 1 ∧
  ∀ input o y, step input (run step x inputs) = .ok o y → o.complete = true →
    .completed y.core.internalMech ∈ y.core.log ∧
    ∀ oid, y.core.internalMech = some oid → isKerbMech oid = true →
      y.core.derMechTypes = SpnegoDer.putMechSet y.core.mechTypes ∧
      ((y.core.mechTypes.head? ≠ some oid ∨ ∃ mech, .reselected mech ∈ y.core.log) →
        MicsExchanged (trace step x (inputs ++ [input])) y.core)

theorem Core.integ_of_kerb (hoid : c.internalMech = some oid) (hkerb : isKerbMech oid = true) : c.integ = true := by
  unfold Core.integ
  rw [hoid]
  refine decide_eq_true fun h => ?_
  rw [Option.some.inj h] at hkerb
  exact absurd hkerb (by decide)

theorem micsExchanged_of_finished {σ ι : Type} {t : List (Trace.Event GssError σ ι Outcome)}
    (hfin : Finished c) (hok : CoreOk c) (hemitted : c.mic.sent = true → Emitted t c) (hoid : c.internalMech = some oid)
    (hkerb : isKerbMech oid = true) (hreqd : c.mic.reqd = true) : MicsExchanged t c := by
  obtain ⟨hsent, hrcvd⟩ := hfin.mics (Core.integ_of_kerb hoid hkerb) hreqd
  exact ⟨hok.received hrcvd, hemitted hsent⟩

section
variable [SpnegoDer]

theorem acceptor_safe [Krb5Mech Bytes α] [NegoexMech Bytes ν] (inner : Option α) (negoex : Option ν)
    (mechTypes : List Bytes) (inputs : List Bytes) : (SpnegoAcceptor.new inner negoex mechTypes).Safe inputs := by
  have hstart := SpnegoAcceptor.ok_new inner negoex mechTypes
  refine ⟨(run_emitted SpnegoAcceptor.step_ok hstart rfl inputs).1.core.at_most_one, ?_⟩
  intro input o y hcall hcomplete
  obtain ⟨hok, hfin, hemitted⟩ := run_complete SpnegoAcceptor.step_ok hstart rfl hcall hcomplete
  refine ⟨hok.core.completed hfin.mechComplete, ?_⟩
  cases hoid : y.core.internalMech with
  | none =>
    have hmech := (hok.unset hoid).1
    rw [hfin.mechComplete] at hmech
    cases hmech
  | some oid =>
    obtain ⟨list, hlist⟩ := hok.offered (by rw [hoid]; rfl)
    refine ⟨oid, list, rfl, hlist, fun hkerb hhead => ?_⟩
    have hreqd := (hok.needed list _ hlist).2 (by rwa [hoid])
    exact micsExchanged_of_finished hfin hok.core hemitted hoid hkerb hreqd

theorem initiator_safe [Krb5Mech (Option Bytes) α] [NegoexMech (Option Bytes) ν] (inner : Option α) (negoex : Option ν)
    (mechTypes : List Bytes) (inputs : List (Option Bytes)) :
    (SpnegoInitiator.new inner negoex mechTypes).Safe inputs := by
  have hstart := SpnegoInitiator.ok_new inner negoex mechTypes
  refine ⟨(run_emitted SpnegoInitiator.step_ok hstart rfl inputs).1.core.at_most_one, ?_⟩
  intro input o y hcall hcomplete
  obtain ⟨hok, hfin, hemitted⟩ := run_complete SpnegoInitiator.step_ok hstart rfl hcall hcomplete
  refine ⟨hok.core.completed hfin.mechComplete, fun oid hoid hkerb => ?_⟩
  have hfresh : y.fresh = false := by
    cases hfresh : y.fresh with
    | false => rfl
    | true =>
      have hmech := (hok.fresh hfresh).1
      rw [hfin.mechComplete] at hmech
      cases hmech
  have hlisted : SpnegoInitiator.Listed y.core := by
    rcases hok.listed hfresh with hlisted | ⟨hinit, hmem⟩
    · exact hlisted
    -- a context that completed could have been initiated
    have hpresent := hok.present hfin.mechComplete
    have hno := hinit oid (hmem oid hoid)
    simp [Core.present, Core.integ_of_kerb hoid hkerb, SpnegoInitiator.canInit, hkerb] at hpresent hno
    rw [hno.1] at hpresent
    cases hpresent
  refine ⟨hlisted.1, fun hother => ?_⟩
  have hreselected : ∃ mech, .reselected mech ∈ y.core.log := by
    rcases hother with hhead | hreselected
    · exact (hok.first _ _ hlisted.2).2.2 (by rwa [hoid])
    · exact hreselected
  exact micsExchanged_of_finished hfin hok.core hemitted hoid hkerb (hok.reselected hreselected ⟨oid, hoid, hkerb⟩)

/-- Whatever is fed to either end, and whether or not calls go on after errors, no exchange completes without the
protection its mechanism needs. -/
theorem negotiation_protected {β μ : Type} [Krb5Mech Bytes α] [NegoexMech Bytes ν] [Krb5Mech (Option Bytes) β]
    [NegoexMech (Option Bytes) μ] :
    (∀ (inner : Option α) (negoex : Option ν) (mechTypes : List Bytes) (inputs : List Bytes),
      (SpnegoAcceptor.new inner negoex mechTypes).Safe inputs) ∧
    ∀ (inner : Option β) (negoex : Option μ) (mechTypes : List Bytes) (inputs : List (Option Bytes)),
      (SpnegoInitiator.new inner negoex mechTypes).Safe inputs :=
  ⟨acceptor_safe, initiator_safe⟩

end

end Spnego

end Krb5Rs
