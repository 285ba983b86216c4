import Krb5Rs.Master
import Krb5Rs.SeqState

/-!
# Message protection of an established GSS context

`gssapi/krb5/context.rs`: wrap tokens, sealed or signed, and how they are opened.
The encryption types are a parameter, `MsgCrypto`; a confounder is an argument of
the encryption. Arithmetic on `u64` is as in `SeqState`.
-/

namespace Krb5Rs

open Wire (Bytes be ofBe)

/-- An encryption type: the arguments are key, usage, confounder and text. -/
structure MsgProfile where
  confounderSize : Nat
  checksumSize : Nat
  encrypt : Bytes → Int32 → Bytes → Bytes → Except String Bytes
  decrypt : Bytes → Int32 → Bytes → Except String Bytes
  checksum : Bytes → Int32 → Bytes → Except String Bytes
  checksumSize_lt : checksumSize < 2 ^ 16
  decrypt_encrypt : ∀ {key usage confounder plain cipher},
    encrypt key usage confounder plain = .ok cipher → decrypt key usage cipher = .ok plain
  encrypt_length : ∀ {key usage confounder plain cipher},
    encrypt key usage confounder plain = .ok cipher → cipher.length = plain.length + confounderSize + checksumSize
  checksum_length : ∀ {key usage data sum}, checksum key usage data = .ok sum → sum.length = checksumSize

class MsgCrypto where
  findEtype : Int32 → Option MsgProfile

namespace Gss

inductive Krb5Error
  | crypto (msg : String)
  | badSig
  | defectiveToken
  /-- An overflow where overflow checks are on. -/
  | panicked
deriving Repr, DecidableEq

def tokWrap : Nat := 0x0504
def flagSenderIsAcceptor : UInt8 := 1
def flagWrapConfidential : UInt8 := 2
def flagAcceptorSubkey : UInt8 := 4
def usageAcceptorSeal : Int32 := 22
def usageInitiatorSeal : Int32 := 24

structure Krb5Context where
  initiate : Bool
  key : EncryptionKey
  acceptorSubkey : Option EncryptionKey
  seqSend : UInt64
  seqstate : SeqState

structure Unwrapped where
  data : Bytes
  conf : Bool
  seq : SeqStatus
deriving Repr, DecidableEq

section
variable [MsgCrypto]

def findProfile (key : EncryptionKey) : Except Krb5Error MsgProfile :=
  match MsgCrypto.findEtype key.keytype with
  | some profile => .ok profile
  | none => .error (.crypto "unsupported encryption type")

def crypt {α : Type} : Except String α → Except Krb5Error α
  | .ok a => .ok a
  | .error e => .error (.crypto e)

def verified {α : Type} : Except String α → Except Krb5Error α
  | .ok a => .ok a
  | .error _ => .error .badSig

namespace Krb5Context

def msgKey (ctx : Krb5Context) : EncryptionKey := ctx.acceptorSubkey.getD ctx.key

def sendUsage (ctx : Krb5Context) : Int32 := if ctx.initiate then usageInitiatorSeal else usageAcceptorSeal

def tokenFlags (ctx : Krb5Context) (conf : Bool) : UInt8 :=
  (if ctx.initiate then 0 else flagSenderIsAcceptor) ||| (if conf then flagWrapConfidential else 0) |||
    (if ctx.acceptorSubkey.isSome then flagAcceptorSubkey else 0)

def header (flags : UInt8) (ec rrc : Nat) (seq : UInt64) : Bytes :=
  be 2 tokWrap ++ [flags, 0xff] ++ be 2 ec ++ be 2 rrc ++ be 8 seq.toNat

def sealToken (ctx : Krb5Context) (conf : Bool) (msg : Bytes) (seq : UInt64) (confounder : Bytes) :
    Except Krb5Error Bytes := do
  let key := ctx.msgKey
  let profile ← findProfile key
  let flags := ctx.tokenFlags conf
  let hdr := header flags 0 0 seq
  if conf then
    let cipher ← crypt (profile.encrypt key.keyBytes ctx.sendUsage confounder (msg ++ hdr))
    .ok (hdr ++ cipher)
  else
    let sum ← crypt (profile.checksum key.keyBytes ctx.sendUsage (msg ++ hdr))
    .ok (header flags sum.length 0 seq ++ msg ++ sum)

def wrap (overflowChecks : Bool) (ctx : Krb5Context) (conf : Bool) (msg confounder : Bytes) :
    Except Krb5Error (Bytes × Krb5Context) := do
  let token ← ctx.sealToken conf msg ctx.seqSend confounder
  match addU64 overflowChecks ctx.seqSend 1 with
  | none => .error .panicked
  | some next => .ok (token, { ctx with seqSend := next })

def rotateLeft (body : Bytes) (rrc : Nat) : Bytes :=
  let n := rrc % max body.length 1
  body.drop n ++ body.take n

def slice (token : Bytes) (start stop : Nat) : Bytes := (token.drop start).take (stop - start)

def flagsOf (token : Bytes) : UInt8 := token.getD 2 0

def isConf (token : Bytes) : Bool := flagsOf token &&& flagWrapConfidential ≠ 0

def recvUsage (ctx : Krb5Context) : Int32 := if ctx.initiate then usageAcceptorSeal else usageInitiatorSeal

def recvKey (ctx : Krb5Context) (token : Bytes) : EncryptionKey :=
  match ctx.acceptorSubkey with
  | some sub => if 3 ≤ token.length ∧ flagsOf token &&& flagAcceptorSubkey ≠ 0 then sub else ctx.key
  | none => ctx.key

def checkCommon (ctx : Krb5Context) (token : Bytes) (tokId : Nat) : Except Krb5Error Bytes :=
  if token.length < 16 then .error .defectiveToken
  else if flagsOf token &&& flagSenderIsAcceptor ≠ (if ctx.initiate then flagSenderIsAcceptor else 0) then
    .error .badSig
  else if ofBe (slice token 0 2) ≠ tokId then .error .defectiveToken
  else if token.getD 3 0 ≠ 0xff then .error .defectiveToken
  else .ok (slice token 0 16)

def openSealed (profile : MsgProfile) (key : EncryptionKey) (usage : Int32) (token body : Bytes) (ec : Nat) :
    Except Krb5Error Bytes := do
  let plain ← verified (profile.decrypt key.keyBytes usage body)
  let althdr := plain.drop (plain.length - 16)
  if plain.length < 16 + ec then .error .defectiveToken
  else if slice althdr 0 2 ≠ be 2 tokWrap ∨ althdr.getD 2 0 ≠ flagsOf token ∨ althdr.getD 3 0 ≠ token.getD 3 0 ∨
      ofBe (slice althdr 4 6) ≠ ec ∨ althdr.drop 8 ≠ slice token 8 16 then .error .defectiveToken
  else .ok (plain.take (plain.length - 16 - ec))

def openSigned (profile : MsgProfile) (key : EncryptionKey) (usage : Int32) (hdr body : Bytes) (ec : Nat) :
    Except Krb5Error Bytes :=
  let cksumLen := profile.checksumSize
  let msg := body.take (body.length - cksumLen)
  let zeroed := hdr.take 4 ++ [0, 0, 0, 0] ++ hdr.drop 8
  if ec ≠ cksumLen ∨ body.length < cksumLen then .error .defectiveToken
  else
    match profile.checksum key.keyBytes usage (msg ++ zeroed) with
    | .error _ => .error .badSig
    | .ok sum => if sum = body.drop (body.length - cksumLen) then .ok msg else .error .badSig

def inSequence (overflowChecks : Bool) (ctx : Krb5Context) (data : Bytes) (conf : Bool) (seq : UInt64) :
    Except Krb5Error (Unwrapped × Krb5Context) :=
  match ctx.seqstate.check overflowChecks seq with
  | none => .error .panicked
  | some (seqstate, status) => .ok (⟨data, conf, status⟩, { ctx with seqstate })

def openBody (profile : MsgProfile) (key : EncryptionKey) (usage : Int32) (token hdr body : Bytes) (ec : Nat) :
    Except Krb5Error Bytes :=
  if isConf token then openSealed profile key usage token body ec else openSigned profile key usage hdr body ec

def unwrap (overflowChecks : Bool) (ctx : Krb5Context) (token : Bytes) : Except Krb5Error (Unwrapped × Krb5Context) := do
  let key := ctx.recvKey token
  let hdr ← ctx.checkCommon token tokWrap
  let ec := ofBe (slice token 4 6)
  let rrc := ofBe (slice token 6 8)
  let seq := UInt64.ofNat (ofBe (slice token 8 16))
  let profile ← findProfile key
  let body := if rrc ≠ 0 then rotateLeft (token.drop 16) rrc else token.drop 16
  let data ← openBody profile key ctx.recvUsage token hdr body ec
  ctx.inSequence overflowChecks data (isConf token) seq

/-- The longest message whose token has at most `outputSize` bytes. -/
def wrapSizeLimit (ctx : Krb5Context) (conf : Bool) (outputSize : Nat) : Nat :=
  match MsgCrypto.findEtype ctx.msgKey.keytype with
  | none => 0
  | some profile =>
    if conf then outputSize - (16 + profile.confounderSize + profile.checksumSize) - 16
    else outputSize - (16 + profile.checksumSize)

end Krb5Context

/-! ## Two contexts -/

def rotated (token : Bytes) (r : UInt16) : Bytes :=
  let body := token.drop 16
  let n := body.length - r.toNat % max body.length 1
  token.take 6 ++ be 2 r.toNat ++ (token.drop 8).take 8 ++ (body.drop n ++ body.take n)

structure InFlight where
  conf : Bool
  msg : Bytes
  token : Bytes

structure Link where
  left : Krb5Context
  right : Krb5Context
  toRight : List InFlight
  toLeft : List InFlight

def Link.swap (l : Link) : Link := ⟨l.right, l.left, l.toLeft, l.toRight⟩

/-- One side wraps a message, whose token is rotated on its way, or takes the oldest token sent to it. -/
inductive LinkEvent
  | send (left : Bool) (conf : Bool) (msg : Bytes) (r : UInt16) (confounder : Bytes)
  | receive (right : Bool)

structure Delivery where
  sent : InFlight
  result : Except Krb5Error Unwrapped

variable (overflowChecks : Bool)

def Link.sendRight (l : Link) (conf : Bool) (msg : Bytes) (r : UInt16) (confounder : Bytes) : Link :=
  match l.left.wrap overflowChecks conf msg confounder with
  | .error _ => l
  | .ok (token, left) => { l with left, toRight := l.toRight ++ [⟨conf, msg, rotated token r⟩] }

def Link.receiveRight (l : Link) : Link × List Delivery :=
  match l.toRight with
  | [] => (l, [])
  | sent :: toRight =>
    match l.right.unwrap overflowChecks sent.token with
    | .error e => ({ l with toRight }, [⟨sent, .error e⟩])
    | .ok (data, right) => ({ l with right, toRight }, [⟨sent, .ok data⟩])

def Link.step (l : Link) : LinkEvent → Link × List Delivery
  | .send true conf msg r confounder => (l.sendRight overflowChecks conf msg r confounder, [])
  | .send false conf msg r confounder => ((l.swap.sendRight overflowChecks conf msg r confounder).swap, [])
  | .receive true => l.receiveRight overflowChecks
  | .receive false =>
    let (l', out) := l.swap.receiveRight overflowChecks
    (l'.swap, out)

def Link.run (l : Link) : List LinkEvent → List Delivery
  | [] => []
  | e :: es =>
    let (l', out) := l.step overflowChecks e
    out ++ l'.run es

end

structure Established (l : Link) : Prop where
  roles : l.right.initiate = !l.left.initiate
  key : l.right.key = l.left.key
  subkey : l.right.acceptorSubkey = l.left.acceptorSubkey
  atRight : ∃ doReplay doSequence, l.right.seqstate = SeqState.new l.left.seqSend doReplay doSequence true
  atLeft : ∃ doReplay doSequence, l.left.seqstate = SeqState.new l.right.seqSend doReplay doSequence true
  toRight : l.toRight = []
  toLeft : l.toLeft = []

end Gss

end Krb5Rs
