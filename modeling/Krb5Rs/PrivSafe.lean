import Krb5Rs.Wire

/-!
# Reading KRB-SAFE and KRB-PRIV messages

`rd_safe` and `rd_priv` of `protocol/ap/safe_priv.rs` with the replay and
sequence-number checks of `protocol/ap/mod.rs`. Opening a message (decoding,
addresses, checksum or decryption with its cipher state) is the parameter
`Opener`. Times are in seconds.
-/

namespace Krb5Rs

namespace PrivSafe

open Wire (Bytes)

inductive ApError
  | unreadable
  | skew
  | repeated
  | badOrder
deriving Repr, DecidableEq

structure Opened where
  timestamp : Option Int
  /-- What the replay cache remembers of the message. -/
  tag : Bytes
  seqNumber : Option UInt32
  userData : Bytes
deriving DecidableEq

def Opened.wire (m : Opened) : UInt32 := m.seqNumber.getD 0

inductive Kind
  | safe
  | priv
deriving Repr, DecidableEq

/-- Opening with the keys and cipher state `κ` of a context, which it may advance. -/
class Opener (κ : Type) where
  openMessage : Kind → κ → Bytes → Except ApError Opened × κ

structure AuthContext (κ : Type) where
  doTime : Bool
  doSequence : Bool
  clockskew : Int
  timeOffset : Int
  remoteSeq : UInt32
  rcache : List Bytes
  connSaneSeq : Bool
  connHeimdalSeq : Bool
  crypto : κ

/-! ## The checks -/

/-- The number is the expected one sign-extended from its lowest three, two or one bytes. -/
def chkHeimdalSeqnum (expSeq inSeq : UInt32) : Bool :=
  (expSeq &&& 0xFF800000 = 0x00800000 ∧ inSeq &&& 0xFF800000 = 0xFF800000 ∧ inSeq &&& 0x00FFFFFF = expSeq) ∨
    (expSeq &&& 0xFFFF8000 = 0x00008000 ∧ inSeq &&& 0xFFFF8000 = 0xFFFF8000 ∧ inSeq &&& 0x0000FFFF = expSeq) ∨
    (expSeq &&& 0xFFFFFF80 = 0x00000080 ∧ inSeq &&& 0xFFFFFF80 = 0xFFFFFF80 ∧ inSeq &&& 0x000000FF = expSeq)

def tellsSane (expSeq : UInt32) : Bool :=
  expSeq &&& 0xFFFFFF80 = 0x00000080 ∨ expSeq &&& 0xFFFF8000 = 0x00008000 ∨ expSeq &&& 0xFF800000 = 0x00800000

section
variable {κ : Type}

namespace AuthContext

/-- `k5_privsafe_check_seqnum`, with its heuristics for Heimdal's counters. -/
def checkSeqnum (ctx : AuthContext κ) (inSeq : UInt32) : Bool × AuthContext κ :=
  let expSeq := ctx.remoteSeq
  if ctx.connSaneSeq then (inSeq = expSeq, ctx)
  else if inSeq &&& 0xFF800000 = 0xFF800000 then
    if expSeq &&& 0xFF800000 = 0xFF800000 ∧ inSeq = expSeq then (true, ctx)
    else if !ctx.connHeimdalSeq ∧ inSeq = expSeq then (true, ctx)
    else if chkHeimdalSeqnum expSeq inSeq then (true, { ctx with connHeimdalSeq := true })
    else (false, ctx)
  else if inSeq = expSeq then (true, { ctx with connSaneSeq := ctx.connSaneSeq || tellsSane expSeq })
  else if expSeq = 0 ∧ !ctx.connHeimdalSeq then
    if inSeq = 0x100 ∨ inSeq = 0x10000 ∨ inSeq = 0x1000000 then
      (true, { ctx with connHeimdalSeq := true, remoteSeq := inSeq })
    else (false, ctx)
  else (false, ctx)

def skewed (ctx : AuthContext κ) (now date : Int) : Bool :=
  date < now + ctx.timeOffset - ctx.clockskew ∨ date > now + ctx.timeOffset + ctx.clockskew

def checkReplay (ctx : AuthContext κ) (now : Int) (timestamp : Option Int) (tag : Bytes) :
    Except ApError Unit × AuthContext κ :=
  if !ctx.doTime then (.ok (), ctx)
  else if timestamp.any (ctx.skewed now) then (.error .skew, ctx)
  else if ctx.rcache.contains tag then (.error .repeated, ctx)
  else (.ok (), { ctx with rcache := tag :: ctx.rcache })

def inSequence (ctx : AuthContext κ) (m : Opened) : Except ApError Opened × AuthContext κ :=
  if ctx.doSequence then
    let (ok, ctx) := ctx.checkSeqnum m.wire
    if ok then (.ok m, { ctx with remoteSeq := ctx.remoteSeq + 1 }) else (.error .badOrder, ctx)
  else (.ok m, ctx)

def rdOpened (ctx : AuthContext κ) (now : Int) (m : Opened) : Except ApError Opened × AuthContext κ :=
  match ctx.checkReplay now m.timestamp m.tag with
  | (.error e, ctx) => (.error e, ctx)
  | (.ok (), ctx) => ctx.inSequence m

end AuthContext

structure Call where
  kind : Kind
  msg : Bytes
  now : Int

variable [Opener κ]

namespace AuthContext

def rd (ctx : AuthContext κ) (call : Call) : Except ApError Opened × AuthContext κ :=
  match Opener.openMessage call.kind ctx.crypto call.msg with
  | (.error e, crypto) => (.error e, { ctx with crypto })
  | (.ok m, crypto) => { ctx with crypto }.rdOpened call.now m

def results (ctx : AuthContext κ) : List Call → List (Except ApError Opened)
  | [] => []
  | call :: calls => (ctx.rd call).1 :: (ctx.rd call).2.results calls

def run (ctx : AuthContext κ) : List Call → AuthContext κ
  | [] => ctx
  | call :: calls => (ctx.rd call).2.run calls

end AuthContext

end

end PrivSafe

end Krb5Rs
