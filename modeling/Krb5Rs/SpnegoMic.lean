import Krb5Rs.Spnego
import Krb5Rs.Trace

/-!
# What a complete SPNEGO exchange is protected by

The calls into the mechanism and the exchange of MICs are the same on both
ends: `Works` says what they keep, `Exchanged` what the MICs decide.
-/

namespace Krb5Rs

namespace Spnego

open Wire (Bytes)
open Stateful (Ends ends_pure ends_throw)
open Trace (event trace run)

def Note.isVerified : Note → Bool
  | .verified _ _ => true
  | _ => false

def Note.isSetup : Note → Bool
  | .offered _ _ => true
  | .reselected _ => true
  | _ => false

def MechStep.isComplete : MechStep → Bool
  | .complete _ => true
  | .continueNeeded _ => false

section
variable {ι α ν : Type}

structure CoreOk (c : Core α ν) : Prop where
  completed : c.mechComplete = true → .completed c.internalMech ∈ c.log
  received : c.mic.rcvd = true → ∃ m, .verified c.derMechTypes m ∈ c.log
  once : c.log.countP Note.isVerified = if c.mic.rcvd then 1 else 0

structure Works (c c' : Core α ν) : Prop where
  internal : c'.internalMech = c.internalMech
  der : c'.derMechTypes = c.derMechTypes
  mechTypes : c'.mechTypes = c.mechTypes
  inner : c'.inner.isSome = c.inner.isSome
  negoex : c'.negoex.isSome = c.negoex.isSome
  reqd : c.mic.reqd = true → c'.mic.reqd = true
  log : ∀ n ∈ c.log, n ∈ c'.log
  setup : ∀ n ∈ c'.log, n.isSetup = true → n ∈ c.log
  ok : CoreOk c → CoreOk c'

theorem Works.refl (c : Core α ν) : Works c c :=
  ⟨rfl, rfl, rfl, rfl, rfl, id, fun _ h => h, fun _ h _ => h, id⟩

variable {c c' : Core α ν}

theorem Works.trans {a b : Core α ν} (h : Works a b) (h' : Works b c) : Works a c where
  internal := h'.internal.trans h.internal
  der := h'.der.trans h.der
  mechTypes := h'.mechTypes.trans h.mechTypes
  inner := h'.inner.trans h.inner
  negoex := h'.negoex.trans h.negoex
  reqd := h'.reqd ∘ h.reqd
  log := fun n hn => h'.log n (h.log n hn)
  setup := fun n hn hs => h.setup n (h'.setup n hn hs) hs
  ok := h'.ok ∘ h.ok

theorem Works.integ (h : Works c c') : c'.integ = c.integ := by
  unfold Core.integ
  rw [h.internal]

/-! ## The mechanism -/

inductive Calls (c : Core α ν) : Core α ν → Prop
  | mk {inner : Option α} {negoex : Option ν} (hinner : inner.isSome = c.inner.isSome)
      (hnegoex : negoex.isSome = c.negoex.isSome) : Calls c { c with inner, negoex }

theorem Calls.works (h : Calls c c') : Works c c' := by
  cases h with
  | mk hinner hnegoex =>
    exact ⟨rfl, rfl, rfl, hinner, hnegoex, id, fun _ h => h, fun _ h _ => h, fun h => ⟨h.completed, h.received, h.once⟩⟩

theorem onInner_ends {β : Type} (m : EStateM GssError α β) (c : Core α ν) :
    Ends (fun _ c' => c.inner.isSome = true ∧ Calls c c') (Calls c) (Core.onInner m) c := by
  unfold Ends Core.onInner
  cases hinner : c.inner with
  | none => exact .mk rfl rfl
  | some a =>
    dsimp only
    cases m a with
    | ok b a' => exact ⟨rfl, .mk (by simp [hinner]) rfl⟩
    | error e a' => exact .mk (by simp [hinner]) rfl

theorem onNegoex_ends {β : Type} (m : EStateM GssError ν β) (c : Core α ν) :
    Ends (fun _ c' => c.negoex.isSome = true ∧ Calls c c') (Calls c) (Core.onNegoex m) c := by
  unfold Ends Core.onNegoex
  cases hnegoex : c.negoex with
  | none => exact .mk rfl rfl
  | some n =>
    dsimp only
    cases m n with
    | ok b n' => exact ⟨rfl, .mk rfl (by simp [hnegoex])⟩
    | error e n' => exact .mk rfl (by simp [hnegoex])

def Core.present (c : Core α ν) : Bool := if c.integ then c.inner.isSome else c.negoex.isSome

theorem callMech_ends [Krb5Mech ι α] [NegoexMech ι ν] (input : ι) (c : Core α ν) :
    Ends (fun _ c' => c.present = true ∧ Calls c c') (Calls c) (Core.callMech input) c := by
  change Ends _ _ (if c.integ then _ else _) c
  cases hinteg : c.integ with
  | true =>
    refine (onInner_ends _ c).mono (fun _ c' h => ?_) fun _ h => h
    simpa [Core.present, hinteg] using h
  | false =>
    refine (onNegoex_ends _ c).bind fun s c' h => ends_pure ?_
    simpa [Core.present, hinteg] using h

structure Stepped (step : MechStep) (c c' : Core α ν) : Prop where
  works : Works c c'
  mic : c'.mic = c.mic
  complete : c'.mechComplete = (c.mechComplete || step.isComplete)

theorem recordStep_ends {E : Core α ν → Prop} (step : MechStep) (c : Core α ν) :
    Ends (fun _ c' => Stepped step c c') E (Core.recordStep step) c := by
  cases step with
  | continueNeeded token => exact ends_pure ⟨.refl c, rfl, by simp [MechStep.isComplete]⟩
  | complete token =>
    refine ⟨⟨rfl, rfl, rfl, rfl, rfl, id, fun n hn => List.mem_cons_of_mem _ hn, ?_, ?_⟩, rfl, by simp [MechStep.isComplete]⟩
    · intro n hn hsetup
      rcases List.mem_cons.mp hn with rfl | hn
      · cases hsetup
      · exact hn
    · intro h
      refine ⟨fun _ => List.mem_cons_self, fun hr => ?_, ?_⟩
      · obtain ⟨m, hm⟩ := h.received hr
        exact ⟨m, List.mem_cons_of_mem _ hm⟩
      · simpa [Note.isVerified] using h.once

/-! ## MICs -/

theorem Calls.mic (h : Calls c c') : c'.mic = c.mic := by
  cases h
  rfl

theorem Calls.mechComplete (h : Calls c c') : c'.mechComplete = c.mechComplete := by
  cases h
  rfl

theorem works_note {mic : MicCtx} {n : Note} (hreqd : c.mic.reqd = true → mic.reqd = true)
    (hsetup : n.isSetup = false) (hrcvd : mic.rcvd = true → c.mic.rcvd = true ∨ ∃ m, n = .verified c.derMechTypes m)
    (honce : (if n.isVerified then 1 else 0) + (if c.mic.rcvd then 1 else 0) = if mic.rcvd then 1 else 0) :
    Works c { c with mic, log := n :: c.log } := by
  refine ⟨rfl, rfl, rfl, rfl, rfl, hreqd, fun _ h => List.mem_cons_of_mem _ h, ?_, ?_⟩
  · intro n' hn' hs
    rcases List.mem_cons.mp hn' with rfl | hn'
    · rw [hsetup] at hs
      cases hs
    · exact hn'
  · intro h
    refine ⟨fun hc => List.mem_cons_of_mem _ (h.completed hc), fun hr => ?_, ?_⟩
    · rcases hrcvd hr with hr | ⟨m, rfl⟩
      · obtain ⟨m, hm⟩ := h.received hr
        exact ⟨m, List.mem_cons_of_mem _ hm⟩
      · exact ⟨m, List.mem_cons_self⟩
    · rw [List.countP_cons, h.once, Nat.add_comm]
      exact honce

section
variable [Krb5Mech ι α]

theorem verifyPeer_ends (micIn : Option Bytes) (c : Core α ν) (hfirst : micIn.isSome = true → c.mic.rcvd = false) :
    Ends (fun _ c' => Works c c' ∧ c'.mechComplete = c.mechComplete ∧
        c'.mic = if micIn.isSome then ⟨true, c.mic.sent, true⟩ else c.mic) (Calls c) (Core.verifyPeer micIn) c := by
  cases micIn with
  | none => exact ends_pure ⟨.refl c, rfl, rfl⟩
  | some m =>
    refine (onInner_ends _ c).bind fun _ c' h => ?_
    obtain ⟨-, hcalls⟩ := h
    have hrcvd := hcalls.mic ▸ hfirst rfl
    refine ⟨hcalls.works.trans (works_note (fun _ => rfl) rfl (fun _ => .inr ⟨m, rfl⟩) ?_), hcalls.mechComplete, ?_⟩
    · simp [Note.isVerified, hrcvd]
    · simp [hcalls.mic]

theorem signOwn_ends (c : Core α ν) :
    Ends (fun m c' => Works c c' ∧ c'.mechComplete = c.mechComplete ∧ c'.mic = ⟨c.mic.reqd, true, c.mic.rcvd⟩ ∧
        .signed c'.derMechTypes m ∈ c'.log) (Calls c) Core.signOwn c := by
  refine (onInner_ends _ c).bind fun m c' h => ?_
  obtain ⟨-, hcalls⟩ := h
  refine ⟨hcalls.works.trans (works_note id rfl .inl ?_), hcalls.mechComplete, ?_, List.mem_cons_self⟩
  · simp [Note.isVerified]
  · simp [hcalls.mic]

theorem ownMic_ends (c : Core α ν) : Ends (fun m c' => Works c c' ∧ c'.mechComplete = c.mechComplete ∧
        c'.mic = ⟨c.mic.reqd, c.mic.sent || c.mic.reqd, c.mic.rcvd⟩ ∧ m.isSome = (c.mic.reqd && !c.mic.sent) ∧
        ∀ v, m = some v → .signed c'.derMechTypes v ∈ c'.log) (Calls c) Core.ownMic c := by
  change Ends _ _ (if c.mic.reqd && !c.mic.sent then _ else _) c
  cases hdue : c.mic.reqd && !c.mic.sent with
  | false =>
    have hsent : (c.mic.sent || c.mic.reqd) = c.mic.sent := by
      cases hreqd : c.mic.reqd <;> simp_all
    refine ends_pure ⟨.refl c, rfl, ?_, rfl, fun v hv => by cases hv⟩
    rw [hsent]
  | true =>
    refine (signOwn_ends c).bind fun m c' h => ends_pure ?_
    obtain ⟨hworks, hcomplete, hmic, hsigned⟩ := h
    obtain ⟨hreqd, -⟩ := Bool.and_eq_true_iff.mp hdue
    refine ⟨hworks, hcomplete, by simp [hmic, hreqd], rfl, fun v hv => ?_⟩
    cases hv
    exact hsigned

structure Exchanged (sendMechtok : Bool) (negState : NegState) (c c' : Core α ν) (out : Core.MicOut) : Prop where
  works : Works c c'
  mechComplete : c'.mechComplete = c.mechComplete
  skipped : (c.mechComplete && c.integ) = false → out = ⟨none, negState, none⟩ ∧ c' = c
  /-- Where MICs are due, both are needed. -/
  both : (c.mechComplete && c.integ) = true → c'.mic.reqd = true → out.negState = .acceptCompleted →
    c'.mic.sent = true ∧ c'.mic.rcvd = true
  /-- The last token has brought the MIC that is due. -/
  final : (c.mechComplete && c.integ) = true → c'.mic.reqd = true → sendMechtok = false →
    c'.mic.sent = true ∧ c'.mic.rcvd = true
  decided : out.noTokenSend = some true → out.negState = .acceptCompleted
  sent : c'.mic.sent = true → c.mic.sent = true ∨ ∃ m, out.mic = some m ∧ .signed c'.derMechTypes m ∈ c'.log
  due : out.mic.isSome = true → out.noTokenSend = some false ∨ out.noTokenSend = none ∧ sendMechtok = true

omit [Krb5Mech ι α] in
theorem micOut_mic (mic : MicCtx) (negState : NegState) (m : Option Bytes) : (Core.micOut mic negState m).mic = m := by
  unfold Core.micOut
  split
  · rfl
  · split <;> rfl

theorem handleMic_ends (micIn : Option Bytes) (sendMechtok : Bool) (negState : NegState) (c : Core α ν)
    (hdue : (c.mechComplete && c.integ) = true) : Ends (fun out c' => Exchanged sendMechtok negState c c' out)
      (fun c' => Works c c' ∧ c'.mic.sent = c.mic.sent ∧ (c.mechComplete && c.integ) = true)
      (Core.handleMic micIn sendMechtok negState) c := by
  change Ends _ _ (if Core.misplaced c.mic micIn sendMechtok then _ else _) c
  cases hplace : Core.misplaced c.mic micIn sendMechtok with
  | true => exact ends_throw ⟨.refl c, rfl, hdue⟩
  | false =>
    have hfirst : micIn.isSome = true → c.mic.rcvd = false := by
      intro hsome
      simpa [Core.misplaced, hsome] using hplace
    have hverify := verifyPeer_ends micIn c hfirst
    refine (hverify.mono (fun _ _ h => h) fun c' h => ⟨h.works, by rw [h.mic], hdue⟩).bind fun _ c₁ h₁ => ?_
    obtain ⟨hworks₁, hcomplete₁, hmic₁⟩ := h₁
    have hsent₁ : c₁.mic.sent = c.mic.sent := by
      rw [hmic₁]
      split <;> rfl
    have herror : ∀ c', Calls c₁ c' →
        Works c c' ∧ c'.mic.sent = c.mic.sent ∧ (c.mechComplete && c.integ) = true := fun c' h =>
      ⟨hworks₁.trans h.works, by rw [h.mic, hsent₁], hdue⟩
    refine ((ownMic_ends c₁).mono (fun _ _ h => h) herror).bind fun m c₂ h₂ => ?_
    obtain ⟨hworks₂, hcomplete₂, hmic₂, hsome, hsigned⟩ := h₂
    have hreqd₂ : c₂.mic.reqd = c₁.mic.reqd := by rw [hmic₂]
    have hsent₂ : c₂.mic.sent = (c.mic.sent || c₁.mic.reqd) := by rw [hmic₂, hsent₁]
    have hrcvd₂ : c₂.mic.rcvd = c₁.mic.rcvd := by rw [hmic₂]
    rw [hsent₁] at hsome
    refine ⟨hworks₁.trans hworks₂, hcomplete₂.trans hcomplete₁, fun h => ?_, fun _ hreqd hstate => ?_,
      fun _ hreqd htoken => ?_, ?_, ?_, ?_⟩
    · rw [hdue] at h
      cases h
    · have hsent : c₂.mic.sent = true := by
        rw [hsent₂, ← hreqd₂, hreqd, Bool.or_true]
      cases hrcvd : c₂.mic.rcvd with
      | true => exact ⟨hsent, rfl⟩
      | false => simp [Core.micOut, hrcvd, hreqd] at hstate
    · rw [hreqd₂] at hreqd
      rw [hsent₂, hreqd, hrcvd₂, Bool.or_true]
      cases hin : micIn.isSome with
      | true => simp [hmic₁, hin]
      | false => simp_all [Core.misplaced]
    · unfold Core.micOut
      split
      · exact fun _ => rfl
      · split <;> exact fun h => by cases h
    · intro hsent
      cases hold : c.mic.sent with
      | true => exact .inl rfl
      | false =>
        have hsome' : m.isSome = true := by
          rw [hsent₂, hold, Bool.false_or] at hsent
          rw [hsome, hold, hsent]
          rfl
        obtain ⟨v, rfl⟩ := Option.isSome_iff_exists.mp hsome'
        exact .inr ⟨v, micOut_mic _ _ _, hsigned v rfl⟩
    · rw [micOut_mic]
      intro hm
      have hreqd := (Bool.and_eq_true_iff.mp (hsome.symm.trans hm)).1
      have hsent : c₂.mic.sent = true := by
        rw [hsent₂, hreqd, Bool.or_true]
      cases hrcvd : c₂.mic.rcvd with
      | true =>
        simpa [Core.micOut, hsent, hrcvd] using hm
      | false =>
        -- no MIC came, so a mechanism token goes along with ours
        right
        have hnone : micIn.isSome = false := by
          cases hin : micIn.isSome with
          | false => rfl
          | true => simp [hrcvd₂, hmic₁, hin] at hrcvd
        refine ⟨by simp [Core.micOut, hrcvd, hreqd₂, hreqd], ?_⟩
        have hold : c.mic.reqd = true := by simpa [hmic₁, hnone] using hreqd
        simpa [Core.misplaced, hnone, hold] using hplace

theorem exchangeMics_ends (micIn : Option Bytes) (sendMechtok : Bool) (negState : NegState) (c : Core α ν) :
    Ends (fun out c' => Exchanged sendMechtok negState c c' out)
      (fun c' => Works c c' ∧ c'.mic.sent = c.mic.sent ∧ (c.mechComplete && c.integ) = true)
      (Core.exchangeMics micIn sendMechtok negState) c := by
  change Ends _ _ (if c.mechComplete && c.integ then _ else _) c
  split
  case isFalse hdue =>
    exact ends_pure ⟨.refl c, rfl, fun _ => ⟨rfl, rfl⟩, fun h => absurd h hdue, fun h => absurd h hdue, nofun, .inl,
      nofun⟩
  case isTrue hdue =>
    have hctx : Ends (fun _ c' => c' = c) (fun c' => c' = c) (Core.requireCtx (α := α) (ν := ν)) c := by
      unfold Ends Core.requireCtx
      cases c.inner.any Krb5Mech.hasCtx <;> rfl
    refine (hctx.mono (fun _ _ h => h) fun c' h => ?_).bind fun _ c' h => ?_
    · rw [h]
      exact ⟨.refl c, rfl, hdue⟩
    · rw [h]
      exact handleMic_ends micIn sendMechtok negState c hdue

end

/-! ## Runs of either end -/

/-- A complete exchange: the mechanism is, and MICs that are due have been exchanged. -/
structure Finished (c : Core α ν) : Prop where
  mechComplete : c.mechComplete = true
  mics : c.integ = true → c.mic.reqd = true → c.mic.sent = true ∧ c.mic.rcvd = true

section
variable {σ : Type} (core : σ → Core α ν) (Ok : σ → Prop)

structure Kept (x x' : σ) : Prop where
  ok : Ok x'
  log : ∀ n ∈ (core x).log, n ∈ (core x').log
  der : (core x).mic.sent = true → (core x').derMechTypes = (core x).derMechTypes

structure Returned (x : σ) (o : Outcome) (x' : σ) : Prop extends Kept core Ok x x' where
  finished : o.complete = true → Finished (core x')
  sent : (core x').mic.sent = true → (core x).mic.sent = true ∨
    ∃ m, o.token.bind Token.mic = some m ∧ .signed (core x').derMechTypes m ∈ (core x').log

def StepOk (call : ι → EStateM GssError σ Outcome) : Prop :=
  ∀ i x, Ok x → Ends (fun o x' => Returned core Ok x o x')
    (fun x' => Kept core Ok x x' ∧ (core x').mic.sent = (core x).mic.sent) (call i) x

def micOf (e : Trace.Event GssError σ ι Outcome) : Option Bytes :=
  match e.result with
  | .ok o _ => o.token.bind Token.mic
  | .error _ _ => none

def Emitted (t : List (Trace.Event GssError σ ι Outcome)) (c : Core α ν) : Prop :=
  ∃ e ∈ t, ∃ m, micOf e = some m ∧ .signed c.derMechTypes m ∈ c.log

variable {core Ok} {call : ι → EStateM GssError σ Outcome} {x : σ}

theorem Emitted.mono {t : List (Trace.Event GssError σ ι Outcome)} {e : Trace.Event GssError σ ι Outcome}
    {x' : σ} (h : Emitted t (core x)) (hkept : Kept core Ok x x') (hsent : (core x).mic.sent = true) :
    Emitted (t ++ [e]) (core x') := by
  obtain ⟨e', he', m, hm, hsigned⟩ := h
  exact ⟨e', List.mem_append_left _ he', m, hm, hkept.der hsent ▸ hkept.log _ hsigned⟩

theorem run_emitted (hstep : StepOk core Ok call) (hstart : Ok x) (hsent : (core x).mic.sent = false)
    (inputs : List ι) : Ok (run call x inputs) ∧
      ((core (run call x inputs)).mic.sent = true → Emitted (trace call x inputs) (core (run call x inputs))) := by
  refine Trace.invariant (P := fun t x => Ok x ∧ ((core x).mic.sent = true → Emitted t (core x)))
    ⟨hstart, fun h => ?_⟩ (fun t x i h => ?_) inputs
  · rw [hsent] at h
    cases h
  · obtain ⟨hok, hemitted⟩ := h
    have hends := hstep i x hok
    unfold event Trace.Event.after
    cases hcall : call i x with
    | error e y =>
      obtain ⟨hkept, hsame⟩ := hends.of_error hcall
      exact ⟨hkept.ok, fun hs => (hemitted (hsame ▸ hs)).mono hkept (hsame ▸ hs)⟩
    | ok o y =>
      have hret := hends.of_ok hcall
      refine ⟨hret.ok, fun hs => ?_⟩
      rcases hret.sent hs with hold | ⟨m, hm, hsigned⟩
      · exact (hemitted hold).mono hret.toKept hold
      · exact ⟨_, List.mem_append_right _ List.mem_cons_self, m, hm, hsigned⟩

theorem run_complete (hstep : StepOk core Ok call) {y : σ} {i : ι} {o : Outcome} (hstart : Ok x)
    (hsent : (core x).mic.sent = false) {inputs : List ι} (hcall : call i (run call x inputs) = .ok o y)
    (hcomplete : o.complete = true) : Ok y ∧ Finished (core y) ∧
      ((core y).mic.sent = true → Emitted (trace call x (inputs ++ [i])) (core y)) := by
  have hlast : run call x (inputs ++ [i]) = y := by
    rw [Trace.run_concat]
    unfold event Trace.Event.after
    rw [hcall]
  obtain ⟨hok, hemitted⟩ := run_emitted hstep hstart hsent (inputs ++ [i])
  rw [hlast] at hok hemitted
  exact ⟨hok, ((hstep i _ (run_emitted hstep hstart hsent inputs).1).of_ok hcall).finished hcomplete, hemitted⟩

theorem CoreOk.at_most_one (h : CoreOk c) : c.log.countP Note.isVerified ≤ 1 := by
  rw [h.once]
  split <;> omega

end

end

end Spnego

end Krb5Rs
