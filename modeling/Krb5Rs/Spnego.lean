import Krb5Rs.Wire
import Krb5Rs.Stateful

/-!
# SPNEGO

`SpnegoAcceptor` and `SpnegoInitiator` of `gssapi/spnego`: the choice of a
mechanism and the protection of the list it was chosen from by `handle_mic`.
The encodings, the Kerberos mechanism and NegoEx are parameters; a token that is
sent is kept as its fields. `log` is not in the source: it notes what happened
inside a step.
-/

namespace Krb5Rs

namespace Spnego

open Wire (Bytes)
open Stateful (lift zoom)

inductive GssError
  | defectiveToken
  | badMech
  | noContext
  | failure
  | mech (text : String)
deriving Repr, DecidableEq

def mechKrb5 : Bytes := [0x2a, 0x86, 0x48, 0x86, 0xf7, 0x12, 0x01, 0x02, 0x02]
def mechSpnego : Bytes := [0x2b, 0x06, 0x01, 0x05, 0x05, 0x02]
def mechKrb5Old : Bytes := [0x2b, 0x05, 0x01, 0x05, 0x02]
def mechKrb5Wrong : Bytes := [0x2a, 0x86, 0x48, 0x82, 0xf7, 0x12, 0x01, 0x02, 0x02]
def mechNtlmssp : Bytes := [0x2b, 0x06, 0x01, 0x04, 0x01, 0x82, 0x37, 0x02, 0x02, 0x0a]
def mechNegoex : Bytes := [0x2b, 0x06, 0x01, 0x04, 0x01, 0x82, 0x37, 0x02, 0x02, 0x1e]

def isKerbMech (oid : Bytes) : Bool := oid = mechKrb5 ∨ oid = mechKrb5Old ∨ oid = mechKrb5Wrong

inductive NegState
  | acceptCompleted
  | acceptIncomplete
  | reject
  | requestMic
deriving Repr, DecidableEq

structure NegTokenInit where
  mechTypes : List Bytes
  mechToken : Option Bytes
  mechListMic : Option Bytes

structure NegTokenResp where
  negState : Option NegState
  supportedMech : Option Bytes
  responseToken : Option Bytes
  mechListMic : Option Bytes

inductive Token
  | hints (derMechTypes : Bytes)
  | init (derMechTypes : Bytes) (mechToken mechListMic : Option Bytes)
  | resp (negState : NegState) (supportedMech responseToken mechListMic : Option Bytes)
deriving Repr, DecidableEq

def Token.mic : Token → Option Bytes
  | .hints _ => none
  | .init _ _ mic => mic
  | .resp _ _ _ mic => mic

class SpnegoDer where
  parseTokenHeader : Bytes → Option (Bytes × Bytes)
  decodeNegTokenInit : Bytes → Except GssError (NegTokenInit × Bytes)
  decodeNegTokenResp : Bytes → Except GssError NegTokenResp
  putMechSet : List Bytes → Bytes

inductive MechStep
  | complete (token : Option Bytes)
  | continueNeeded (token : Bytes)
deriving Repr, DecidableEq

/-- The Kerberos mechanism with state `α`, whose steps take an `ι`. -/
class Krb5Mech (ι : outParam Type) (α : Type) where
  step : ι → EStateM GssError α MechStep
  hasCtx : α → Bool
  verifyMic : Bytes → Bytes → EStateM GssError α Unit
  getMic : Bytes → EStateM GssError α Bytes

/-- NegoEx with state `ν`: the token it returns and whether it is complete. -/
class NegoexMech (ι : outParam Type) (ν : Type) where
  step : ι → EStateM GssError ν (Bytes × Bool)

structure MicCtx where
  reqd : Bool
  sent : Bool
  rcvd : Bool
deriving Repr, DecidableEq

inductive Note
  | offered (mechTypes : List Bytes) (der : Bytes)
  | reselected (mech : Bytes)
  | completed (mech : Option Bytes)
  | verified (data mic : Bytes)
  | signed (data mic : Bytes)
deriving Repr, DecidableEq

structure Core (α ν : Type) where
  inner : Option α
  negoex : Option ν
  mechTypes : List Bytes
  derMechTypes : Bytes
  internalMech : Option Bytes
  mechComplete : Bool
  mic : MicCtx
  opened : Bool
  log : List Note

section
variable {ι α ν : Type}

namespace Core

def new (inner : Option α) (negoex : Option ν) (mechTypes : List Bytes) : Core α ν where
  inner := inner
  negoex := negoex
  mechTypes := mechTypes
  derMechTypes := []
  internalMech := none
  mechComplete := false
  mic := ⟨false, false, false⟩
  opened := false
  log := []

/-- The Kerberos mechanism always offers integrity, NegoEx has no MICs. -/
def integ (c : Core α ν) : Bool := c.internalMech ≠ some mechNegoex

def onInner {β : Type} (m : EStateM GssError α β) : EStateM GssError (Core α ν) β := fun c =>
  match c.inner with
  | none => .error .noContext c
  | some a =>
    match m a with
    | .ok b a => .ok b { c with inner := some a }
    | .error e a => .error e { c with inner := some a }

def onNegoex {β : Type} (m : EStateM GssError ν β) : EStateM GssError (Core α ν) β := fun c =>
  match c.negoex with
  | none => .error .noContext c
  | some n =>
    match m n with
    | .ok b n => .ok b { c with negoex := some n }
    | .error e n => .error e { c with negoex := some n }

def negoexStep (s : Bytes × Bool) : MechStep :=
  if s.2 then .complete (if s.1 = [] then none else some s.1) else .continueNeeded s.1

/-! ## MICs -/

section
variable [Krb5Mech ι α]

def requireCtx : EStateM GssError (Core α ν) Unit := fun c =>
  if c.inner.any Krb5Mech.hasCtx then .ok () c else .error .noContext c

/-- The first part of `process_mic`. -/
def verifyPeer (micIn : Option Bytes) : EStateM GssError (Core α ν) Unit :=
  match micIn with
  | none => pure ()
  | some m => do
    let c ← get
    onInner (Krb5Mech.verifyMic c.derMechTypes m)
    modify fun c => { c with
      mic := ⟨true, c.mic.sent, true⟩
      log := .verified c.derMechTypes m :: c.log }

def signOwn : EStateM GssError (Core α ν) Bytes := do
  let c ← get
  let m ← onInner (Krb5Mech.getMic c.derMechTypes)
  modify fun c => { c with
    mic := ⟨c.mic.reqd, true, c.mic.rcvd⟩
    log := .signed c.derMechTypes m :: c.log }
  pure m

/-- The second part of `process_mic`. -/
def ownMic : EStateM GssError (Core α ν) (Option Bytes) := do
  let c ← get
  if c.mic.reqd && !c.mic.sent then (do let m ← signOwn; pure (some m)) else pure none

/-- Our MIC, if one is due, the state, and whether no token is owed, if that is decided. -/
structure MicOut where
  mic : Option Bytes
  negState : NegState
  noTokenSend : Option Bool

def micOut (mic : MicCtx) (negState : NegState) (m : Option Bytes) : MicOut :=
  if mic.sent && mic.rcvd then ⟨m, .acceptCompleted, some m.isNone⟩
  else if mic.reqd then ⟨m, .acceptIncomplete, none⟩
  else ⟨m, negState, none⟩

def misplaced (mic : MicCtx) (micIn : Option Bytes) (sendMechtok : Bool) : Bool :=
  if micIn.isSome then mic.rcvd else mic.reqd && !sendMechtok

def handleMic (micIn : Option Bytes) (sendMechtok : Bool) (negState : NegState) :
    EStateM GssError (Core α ν) MicOut := do
  let c ← get
  if misplaced c.mic micIn sendMechtok then throw .defectiveToken
  else do
    verifyPeer micIn
    let m ← ownMic
    let c ← get
    pure (micOut c.mic negState m)

def exchangeMics (micIn : Option Bytes) (sendMechtok : Bool) (negState : NegState) :
    EStateM GssError (Core α ν) MicOut := do
  let c ← get
  if c.mechComplete && c.integ then do
    requireCtx
    handleMic micIn sendMechtok negState
  else pure ⟨none, negState, none⟩

end

def callMech [Krb5Mech ι α] [NegoexMech ι ν] (input : ι) : EStateM GssError (Core α ν) MechStep := do
  let c ← get
  if c.integ then onInner (Krb5Mech.step input)
  else do
    let s ← onNegoex (NegoexMech.step input)
    pure (negoexStep s)

def recordStep (step : MechStep) : EStateM GssError (Core α ν) (Option Bytes) :=
  match step with
  | .continueNeeded token => pure (some token)
  | .complete token => do
    modify fun c => { c with mechComplete := true, log := .completed c.internalMech :: c.log }
    pure token

def markOpened (complete : Bool) : EStateM GssError (Core α ν) Unit :=
  modify fun c => { c with opened := c.opened || complete }

end Core

def nonempty (token : Option Bytes) : Bool := token.any (· ≠ [])

structure Outcome where
  complete : Bool
  token : Option Token
deriving Repr, DecidableEq

end

/-! ## The acceptor -/

structure SpnegoAcceptor (α ν : Type) where
  core : Core α ν
  first : Bool
  sendSupportedMech : Bool

def tagHeader : UInt8 := 0x60

namespace SpnegoAcceptor

variable {α ν : Type}

def new (inner : Option α) (negoex : Option ν) (mechTypes : List Bytes) : SpnegoAcceptor α ν :=
  ⟨.new inner negoex mechTypes, true, false⟩

def onCore {β : Type} (m : EStateM GssError (Core α ν) β) : EStateM GssError (SpnegoAcceptor α ν) β :=
  zoom core (fun x c => { x with core := c }) m

structure Negotiated where
  negState : NegState
  sendInit : Bool
  hints : Bool
  mechtokIn : Option Bytes
  micIn : Option Bytes

section
variable [SpnegoDer]

def accHints : EStateM GssError (SpnegoAcceptor α ν) Negotiated := do
  onCore (modify fun c => { c with derMechTypes := SpnegoDer.putMechSet c.mechTypes })
  pure ⟨.acceptIncomplete, true, true, none, none⟩

def mapped (oid : Bytes) : Bytes := if oid = mechKrb5Wrong then mechKrb5 else oid

/-- The first mechanism of the peer's list that we support, with its index; it is echoed as it came. -/
def negotiateMech (supported : List Bytes) : Nat → List Bytes → Option (Nat × Bytes)
  | _, [] => none
  | i, oid :: rest =>
    if supported.contains (mapped oid) then some (i, oid)
    else negotiateMech supported (i + 1) rest

def accNew (input : Bytes) : EStateM GssError (SpnegoAcceptor α ν) Negotiated := do
  modify fun x => { x with first := false }
  let init ← lift (SpnegoDer.decodeNegTokenInit input)
  let x ← get
  match negotiateMech x.core.mechTypes 0 init.1.mechTypes with
  | none => throw .badMech
  | some (idx, echo) => do
    modify fun x => { x with
      core := { x.core with
        internalMech := some echo
        derMechTypes := init.2
        mic := ⟨x.core.mic.reqd || idx != 0, x.core.mic.sent, x.core.mic.rcvd⟩
        log := .offered init.1.mechTypes init.2 :: x.core.log }
      sendSupportedMech := true }
    pure ⟨if idx = 0 then .acceptIncomplete else .requestMic, true, false, init.1.mechToken, init.1.mechListMic⟩

def unframed (input : Bytes) : Except GssError Bytes :=
  if input.head? = some tagHeader then
    match SpnegoDer.parseTokenHeader input with
    | some (mech, body) => if mech = mechSpnego then .ok body else .error .defectiveToken
    | none => .error .defectiveToken
  else .ok input

def accCont (input : Bytes) : Except GssError Negotiated := do
  let body ← unframed input
  let r ← SpnegoDer.decodeNegTokenResp body
  if r.responseToken.isNone && r.mechListMic.isNone || r.supportedMech.isSome then .error .defectiveToken
  else .ok ⟨.acceptIncomplete, false, false, r.responseToken, r.mechListMic⟩

def negotiate (input : Bytes) : EStateM GssError (SpnegoAcceptor α ν) Negotiated := do
  let x ← get
  if x.first && input.isEmpty then accHints
  else if x.first || x.core.internalMech.isNone then accNew input
  else lift (accCont input)

/-- `acc_ctx_vfy_oid`: the framing of a mechanism token names the mechanism in use or an alias of it. -/
def vfyOid (c : Core α ν) (token : Bytes) : Except GssError Unit :=
  if c.integ then
    match SpnegoDer.parseTokenHeader token with
    | none => .error .defectiveToken
    | some (mechoid, _) =>
      let internal := c.internalMech.getD []
      if mechoid = internal ∨ isKerbMech internal ∧ isKerbMech mechoid then .ok () else .error .badMech
  else .ok ()

variable [Krb5Mech Bytes α] [NegoexMech Bytes ν]

/-- The state after a step of the mechanism: complete unless MICs are still due. -/
def stepState (c : Core α ν) (step : MechStep) (negState : NegState) : NegState :=
  match step with
  | .complete _ => if !c.mic.reqd || !c.integ then .acceptCompleted else negState
  | .continueNeeded _ => negState

def acceptToken (token : Bytes) (negState : NegState) : EStateM GssError (Core α ν) (NegState × Option Bytes) := do
  let c ← get
  lift (vfyOid c token)
  let step ← Core.callMech token
  let out ← Core.recordStep step
  pure (stepState c step negState, out)

/-- A mechanism token that was sent along with a list whose first mechanism we do not support is not read. -/
def callAcc (n : Negotiated) : EStateM GssError (Core α ν) (NegState × Option Bytes) :=
  match n.mechtokIn with
  | none => pure (n.negState, none)
  | some token => if n.negState = .requestMic then pure (n.negState, none) else acceptToken token n.negState

def reply (x : SpnegoAcceptor α ν) (n : Negotiated) (mechtokOut : Option Bytes) (out : Core.MicOut) : Option Token :=
  if n.hints then some (.hints x.core.derMechTypes)
  else if out.noTokenSend = some true then none
  else
    -- a MIC that completes the exchange goes out as a continuation
    let sendInit := n.sendInit && out.noTokenSend.isNone
    some (.resp out.negState (if x.sendSupportedMech && sendInit then x.core.internalMech else none) mechtokOut out.mic)

def step (input : Bytes) : EStateM GssError (SpnegoAcceptor α ν) Outcome := do
  let n ← negotiate input
  let r ← onCore (callAcc n)
  let out ← onCore (Core.exchangeMics n.micIn (nonempty r.2) r.1)
  let complete := decide (out.negState = .acceptCompleted)
  onCore (Core.markOpened complete)
  let x ← get
  let token := x.reply n r.2 out
  modify fun x => { x with sendSupportedMech := x.sendSupportedMech && (n.hints || token.isNone) }
  pure ⟨complete, token⟩

end

end SpnegoAcceptor

/-! ## The initiator -/

structure SpnegoInitiator (α ν : Type) where
  core : Core α ν
  negoDone : Bool
  fresh : Bool

namespace SpnegoInitiator

variable {α ν : Type}

def new (inner : Option α) (negoex : Option ν) (mechTypes : List Bytes) : SpnegoInitiator α ν :=
  ⟨.new inner negoex mechTypes, false, true⟩

def onCore {β : Type} (m : EStateM GssError (Core α ν) β) : EStateM GssError (SpnegoInitiator α ν) β :=
  zoom core (fun x c => { x with core := c }) m

def canInit (c : Core α ν) (oid : Bytes) : Bool :=
  isKerbMech oid && c.inner.isSome || oid = mechNegoex && c.negoex.isSome

/-- Whether a token is to be sent, as a first or a later one, and whether it is known that none is owed. -/
structure Sends where
  init : Bool
  cont : Bool
  noToken : Bool

section
variable [SpnegoDer]

/-- Leading mechanisms that we cannot initiate are dropped. -/
def initNew : EStateM GssError (SpnegoInitiator α ν) Sends := do
  modify fun x => { x with fresh := false }
  let x ← get
  match x.core.mechTypes.dropWhile (fun oid => !canInit x.core oid) with
  | [] => throw .badMech
  | oid :: rest => do
    onCore (modify fun c => { c with
      mechTypes := oid :: rest
      internalMech := some oid
      derMechTypes := SpnegoDer.putMechSet (oid :: rest)
      log := .offered (oid :: rest) (SpnegoDer.putMechSet (oid :: rest)) :: c.log })
    pure ⟨true, false, false⟩

/-- `init_ctx_reselect`: a mechanism other than the one in use has to be protected by MICs. -/
def reselect (supported : Bytes) (negState : Option NegState) : EStateM GssError (Core α ν) Sends := do
  let c ← get
  if !c.mechTypes.contains supported then throw .defectiveToken
  else if negState ≠ some .requestMic ∧ ¬(negState = some .acceptIncomplete ∧ supported = mechNtlmssp) then
    throw .defectiveToken
  else do
    modify fun c => { c with
      mechComplete := false
      mic := ⟨negState = some .requestMic, c.mic.sent, c.mic.rcvd⟩
      internalMech := some supported
      log := .reselected supported :: c.log }
    let c ← get
    if canInit c supported then pure ⟨false, true, false⟩ else throw .badMech

def sameMech (mechComplete : Bool) (responseToken : Option Bytes) : Except GssError Sends :=
  match responseToken with
  | none => if mechComplete then .ok ⟨false, false, true⟩ else .error .defectiveToken
  | some token =>
    if token = [] && mechComplete then .ok ⟨false, false, true⟩
    else if mechComplete then .error .defectiveToken
    else .ok ⟨false, true, false⟩

def initNego (r : NegTokenResp) : EStateM GssError (Core α ν) Sends := do
  let c ← get
  let internal := c.internalMech.getD []
  let supported := r.supportedMech.getD internal
  if !(isKerbMech supported && isKerbMech internal) && supported ≠ internal then reselect supported r.negState
  else lift (sameMech c.mechComplete r.responseToken)

def later (c : Core α ν) (r : NegTokenResp) : Except GssError Sends :=
  if c.mechComplete = r.responseToken.isSome then .error .defectiveToken
  else if !c.mechComplete || c.mic.reqd && c.integ then .ok ⟨false, true, false⟩
  else .ok ⟨false, false, true⟩

def initReply (r : NegTokenResp) : EStateM GssError (SpnegoInitiator α ν) Sends := do
  let x ← get
  if r.negState = some .reject ∧ r.responseToken.isNone then
    throw (if x.negoDone then .failure else .badMech)
  else if x.negoDone then lift (later x.core r)
  else do
    let sends ← onCore (initNego r)
    modify fun x => { x with negoDone := true }
    pure sends

def decodeInput (input : Option Bytes) : Except GssError NegTokenResp :=
  match input with
  | none => .error .defectiveToken
  | some body => SpnegoDer.decodeNegTokenResp body

def negotiate (input : Option Bytes) : EStateM GssError (SpnegoInitiator α ν) (Sends × Option NegTokenResp) := do
  let x ← get
  if x.fresh then do
    let sends ← initNew
    pure (sends, none)
  else do
    let r ← lift (decodeInput input)
    let sends ← initReply r
    pure (sends, some r)

variable [Krb5Mech (Option Bytes) α] [NegoexMech (Option Bytes) ν]

/-- A last step without a token leaves nothing to send, unless MICs are due. -/
def stepSends (c : Core α ν) (step : MechStep) (token : Option Bytes) (sends : Sends) : Sends :=
  match step with
  | .complete _ =>
    if sends.cont && !nonempty token && !(c.mic.reqd && c.integ) then ⟨sends.init, false, true⟩ else sends
  | .continueNeeded _ => sends

/-- An error token of the acceptor that the mechanism did not notice. -/
def unnoticed (resp : Option NegTokenResp) : Bool := resp.bind (·.negState) = some .reject

def initToken (sends : Sends) (resp : Option NegTokenResp) : EStateM GssError (Core α ν) (Sends × Option Bytes) := do
  let c ← get
  let step ← Core.callMech (resp.bind (·.responseToken))
  let token ← Core.recordStep step
  if unnoticed resp then throw .defectiveToken else pure (stepSends c step token sends, token)

def callInit (sends : Sends) (resp : Option NegTokenResp) : EStateM GssError (Core α ν) (Sends × Option Bytes) := do
  let c ← get
  if c.mechComplete then pure (sends, none) else initToken sends resp

def micSends (sends : Sends) (out : Core.MicOut) : Sends :=
  match out.noTokenSend with
  | none => sends
  | some noToken => ⟨sends.init, !noToken, noToken⟩

def message (c : Core α ν) (sends : Sends) (mechtokOut : Option Bytes) (out : Core.MicOut) : Option Token :=
  if sends.init then some (.init c.derMechTypes mechtokOut out.mic)
  else if sends.cont then some (.resp out.negState none mechtokOut out.mic)
  else none

def step (input : Option Bytes) : EStateM GssError (SpnegoInitiator α ν) Outcome := do
  let n ← negotiate input
  let r ← onCore (callInit n.1 n.2)
  let out ← onCore (Core.exchangeMics (n.2.bind (·.mechListMic)) (nonempty r.2) .acceptIncomplete)
  let sends := micSends r.1 out
  let complete := sends.noToken || out.negState = .acceptCompleted
  onCore (Core.markOpened complete)
  let x ← get
  pure ⟨complete, message x.core sends r.2 out⟩

end

end SpnegoInitiator

end Spnego

end Krb5Rs
