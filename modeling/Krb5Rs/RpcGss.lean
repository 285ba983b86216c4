import Krb5Rs.Rpc

/-!
# The RPCSEC_GSS server

`GssServer.handle` follows `rpc/gss.rs`. The GSS mechanism is a parameter
(`Mech`): its operations may update the context they work on.
-/

namespace Krb5Rs

open Wire (Bytes)

def rpcsecGssVersion : UInt32 := 1
def maxSeq : UInt32 := 0x80000000
def seqWindow : UInt32 := 32

def serverHandle : Bytes := [120, 120, 120, 120]

def procData : UInt32 := 0
def procInit : UInt32 := 1
def procContinueInit : UInt32 := 2
def procDestroy : UInt32 := 3

def gssContinueNeeded : UInt32 := 1

inductive Service
  | none
  | integrity
  | privacy
deriving Repr, DecidableEq

def Service.fromCode (v : UInt32) : Option Service :=
  if v = 1 then some .none
  else if v = 2 then some .integrity
  else if v = 3 then some .privacy
  else Option.none

structure Cred where
  version : UInt32
  proc : UInt32
  seq : UInt32
  service : UInt32
  handle : Bytes
deriving Repr, DecidableEq

def Cred.read : Wire.Reader String Cred := do
  let version ← Xdr.readU32
  let proc ← Xdr.readU32
  let seq ← Xdr.readU32
  let service ← Xdr.readU32
  let handle ← Xdr.readOpaqueMax maxAuthBytes
  pure ⟨version, proc, seq, service, handle⟩

def Cred.decode (body : Bytes) : Except String Cred :=
  match Cred.read body with
  | .ok (gc, _) => .ok gc
  | .error e => .error e

structure InitRes where
  handle : Bytes
  major : UInt32
  minor : UInt32
  window : UInt32
  token : Bytes
deriving Repr, DecidableEq

def InitRes.encode (r : InitRes) : Bytes :=
  Xdr.varOpaque r.handle ++ Xdr.u32 r.major ++ Xdr.u32 r.minor ++ Xdr.u32 r.window ++
    Xdr.varOpaque r.token

inductive AcceptStep
  | complete (token : Option Bytes)
  | continueNeeded (token : Bytes)
  | error

/-- The krb5 mechanism as the server uses it. -/
structure Mech where
  Ctx : Type
  Acceptor : Type
  fresh : Acceptor
  step : Acceptor → Bytes → AcceptStep × Acceptor
  context : Acceptor → Option Ctx
  getMic : Ctx → Bytes → Option Bytes × Ctx
  verifyMic : Ctx → Bytes → Bytes → Bool × Ctx
  wrap : Ctx → Bytes → Option Bytes × Ctx
  unwrap : Ctx → Bytes → Option (Bool × Bytes) × Ctx

section
variable {M : Mech}

def wrapBody (ctx : M.Ctx) (service : Service) (seq : UInt32) (body : Bytes) :
    Option Bytes × M.Ctx :=
  let data := Xdr.u32 seq ++ body
  match service with
  | .none => (some body, ctx)
  | .integrity =>
    let (mic, ctx) := M.getMic ctx data
    (mic.map fun m => Xdr.varOpaque data ++ Xdr.varOpaque m, ctx)
  | .privacy =>
    let (wrapped, ctx) := M.wrap ctx data
    (wrapped.map Xdr.varOpaque, ctx)

def stripSeq (seq : UInt32) (data : Bytes) : Option Bytes :=
  match Xdr.readU32 data with
  | .ok (n, rest) => if n = seq then some rest else none
  | .error _ => none

def unwrapBody (ctx : M.Ctx) (service : Service) (seq : UInt32) (body : Bytes) :
    Option Bytes × M.Ctx :=
  match service with
  | .none => (some body, ctx)
  | .integrity =>
    match (do let data ← Xdr.readOpaque; let mic ← Xdr.readOpaque; pure (data, mic)) body with
    | .error _ => (none, ctx)
    | .ok ((data, mic), _) =>
      let (good, ctx) := M.verifyMic ctx data mic
      (if good then stripSeq seq data else none, ctx)
  | .privacy =>
    match Xdr.readOpaque body with
    | .error _ => (none, ctx)
    | .ok (token, _) =>
      match M.unwrap ctx token with
      | (some (true, data), ctx) => (stripSeq seq data, ctx)
      | (_, ctx) => (none, ctx)

end

def gssVerf (body : Bytes) : OpaqueAuth := ⟨rpcsecGss, body⟩

inductive ServerStep
  | send (reply : Bytes)
  | dispatch (proc : UInt32) (args : Bytes) (seq : UInt32)
deriving Repr, DecidableEq

structure Established (M : Mech) where
  ctx : M.Ctx
  service : Service
  seqlast : UInt32
  seqmask : UInt32

structure GssServer (M : Mech) where
  pending : Option M.Acceptor
  est : Option (Established M)

def GssServer.new (M : Mech) : GssServer M := ⟨none, none⟩

def authError (xid : UInt32) (stat : AuthStat) : ServerStep := .send ((Reply.authError stat).encode xid)

def garbageArgs (xid : UInt32) : ServerStep :=
  .send ((Reply.accepted .none .garbageArgs []).encode xid)

section
variable {M : Mech}

/-- `seq` is neither above `MAXSEQ`, nor below the window, nor already marked. -/
def Established.windowAccepts (e : Established M) (seq : UInt32) : Bool :=
  if maxSeq < seq then false
  else if seq ≤ e.seqlast then
    let offset := e.seqlast - seq
    !(seqWindow ≤ offset || e.seqmask &&& ((1 : UInt32) <<< offset) ≠ 0)
  else true

def shlOrZero (x shift : UInt32) : UInt32 := if shift < 32 then x <<< shift else 0

def Established.advance (e : Established M) (seq : UInt32) : Established M :=
  if e.seqlast < seq then
    { e with seqmask := shlOrZero e.seqmask (seq - e.seqlast) ||| 1, seqlast := seq }
  else
    { e with seqmask := e.seqmask ||| ((1 : UInt32) <<< (e.seqlast - seq)) }

def Established.reply (e : Established M) (xid seq : UInt32) (results : Bytes) : Option Bytes :=
  match M.getMic e.ctx (Xdr.u32 seq) with
  | (none, _) => none
  | (some mic, ctx) =>
    match wrapBody ctx e.service seq results with
    | (none, _) => none
    | (some wrapped, _) => some ((Reply.accepted (gssVerf mic) .success wrapped).encode xid)

def GssServer.init (s : GssServer M) (call : Call) (service : Service) : ServerStep × GssServer M :=
  let xid := call.header.xid
  if call.header.proc ≠ 0 then (authError xid .failed, s)
  else match Xdr.readOpaque call.args with
  | .error _ => (garbageArgs xid, s)
  | .ok (token, _) =>
    -- `pending` is taken before the step, so a failed step drops the acceptor.
    let (out, acceptor) := M.step (s.pending.getD M.fresh) token
    match out with
    | .error => (authError xid .rejectedCred, { s with pending := none })
    | .continueNeeded t =>
      let res : InitRes := ⟨serverHandle, gssContinueNeeded, 0, seqWindow, t⟩
      (.send ((Reply.accepted .none .success res.encode).encode xid), { s with pending := some acceptor })
    | .complete t =>
      let res : InitRes := ⟨serverHandle, 0, 0, seqWindow, t.getD []⟩
      match M.context acceptor with
      | none => (authError xid .failed, { s with pending := none })
      | some ctx =>
        match M.getMic ctx (Xdr.u32 seqWindow) with
        | (none, _) => (authError xid .failed, { s with pending := none })
        | (some mic, ctx) =>
          (.send ((Reply.accepted (gssVerf mic) .success res.encode).encode xid),
            { pending := none, est := some ⟨ctx, service, 0, 0⟩ })

def GssServer.data (s : GssServer M) (call : Call) (gc : Cred) (service : Service) :
    ServerStep × GssServer M :=
  let h := call.header
  match s.est with
  | none => (authError h.xid .gssCredProblem, s)
  | some est =>
    if gc.proc = procDestroy ∧ h.proc ≠ 0 then (authError h.xid .failed, s)
    else if gc.handle ≠ serverHandle ∨ service ≠ est.service then (authError h.xid .badCred, s)
    else
      let (good, ctx) := M.verifyMic est.ctx h.signedPart h.verf.body
      let est := { est with ctx := ctx }
      if good = false then (authError h.xid .gssCredProblem, { s with est := some est })
      else
        let est := est.advance gc.seq
        if gc.proc = procDestroy then
          match est.reply h.xid gc.seq [] with
          | some r => (.send r, { s with est := none })
          | none => (authError h.xid .failed, { s with est := none })
        else
          match unwrapBody est.ctx est.service gc.seq call.args with
          | (some args, ctx) =>
            (.dispatch h.proc args gc.seq, { s with est := some { est with ctx := ctx } })
          | (none, ctx) => (garbageArgs h.xid, { s with est := some { est with ctx := ctx } })

def GssServer.handle (s : GssServer M) (call : Call) : ServerStep × GssServer M :=
  let h := call.header
  if h.cred.flavor ≠ rpcsecGss ∨ h.cred.body = [] then (authError h.xid .badCred, s)
  else match Cred.decode h.cred.body with
  | .error _ => (authError h.xid .badCred, s)
  | .ok gc =>
    match Service.fromCode gc.service with
    | none => (authError h.xid .badCred, s)
    | some service =>
      if gc.version ≠ rpcsecGssVersion then (authError h.xid .badCred, s)
      else if s.est.isSome ∧ (gc.proc = procInit ∨ gc.proc = procContinueInit) then
        (authError h.xid .badCred, s)
      else if s.est.any (fun e => !e.windowAccepts gc.seq) then (authError h.xid .gssCtxProblem, s)
      else if gc.proc = procInit ∨ gc.proc = procContinueInit then s.init call service
      else if gc.proc = procData ∨ gc.proc = procDestroy then s.data call gc service
      else (authError h.xid .rejectedCred, s)

/-! ## Runs of calls -/

def GssServer.after (s : GssServer M) (calls : List Call) : GssServer M :=
  calls.foldl (fun s call => (s.handle call).2) s

/-- A context is established before each of `calls`. -/
def GssServer.Alive : GssServer M → List Call → Prop
  | _, [] => True
  | s, call :: rest => s.est.isSome ∧ Alive (s.handle call).2 rest

def Established.micGood (e : Established M) (call : Call) : Bool :=
  (M.verifyMic e.ctx call.header.signedPart call.header.verf.body).1

/-- `call` carries credential `gc` for a `DATA` or `DESTROY` request that `e`'s
context serves: well-formed, for its handle and service. -/
structure Established.Presents (e : Established M) (call : Call) (gc : Cred) : Prop where
  flavor : call.header.cred.flavor = rpcsecGss
  body : call.header.cred.body ≠ []
  decode : Cred.decode call.header.cred.body = .ok gc
  version : gc.version = rpcsecGssVersion
  proc : gc.proc = procData ∨ gc.proc = procDestroy
  destroy : gc.proc = procDestroy → call.header.proc = 0
  handle : gc.handle = serverHandle
  service : Service.fromCode gc.service = some e.service

/-- In state `s` the call reaches MIC verification with number `seq` and passes. -/
def GssServer.Verified (s : GssServer M) (call : Call) (seq : UInt32) : Prop :=
  ∃ e gc, s.est = some e ∧ e.Presents call gc ∧ gc.seq = seq ∧ e.windowAccepts seq = true ∧
    e.micGood call = true

/-- In state `s` the call is dispatched, or destroys the context. -/
def GssServer.Acts (s : GssServer M) (call : Call) : Prop :=
  (∃ proc args seq, (s.handle call).1 = .dispatch proc args seq) ∨
    (s.est.isSome ∧ (s.handle call).2.est = none)

def Call.credSeq (call : Call) : Option UInt32 :=
  match Cred.decode call.header.cred.body with
  | .ok gc => some gc.seq
  | .error _ => none

end

end Krb5Rs
