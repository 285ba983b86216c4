import Krb5Rs.Ccache
import Krb5Rs.EnctypesSound
import Krb5Rs.PrivSafe

/-!
# KRB-PRIV messages with a chained state

`mk_priv` and the opening half of `rd_priv` of `protocol/ap/safe_priv.rs`. A context
that chains its messages keeps a cipher state; the enctype of a message is the one
the message names. DER and the opening of KRB-SAFE messages are parameters, and
addresses are taken with their ports.
-/

namespace Krb5Rs

namespace PrivSafe

open Wire (Bytes)
open Enctypes (Etype findEtype)
open Ccache (HostAddress)

def krbPrivEncpart : Int32 := 13

structure EncKrbPrivPart where
  userData : Bytes
  timestamp : Option Int
  usec : Option Int32
  seqNumber : Option UInt32
  sAddress : HostAddress
  rAddress : Option HostAddress
deriving DecidableEq

structure KrbPriv where
  pvno : Int32
  msgType : Int32
  etype : Int32
  cipher : Bytes
deriving DecidableEq

/-- The DER of messages, which starts with the tag of KRB-PRIV. -/
class PrivDer where
  encodePart : EncKrbPrivPart → Option Bytes
  decodePart : Bytes → Option EncKrbPrivPart
  decode_encodePart : ∀ {part b}, encodePart part = some b → decodePart b = some part
  encodePriv : KrbPriv → Option Bytes
  decodePriv : Bytes → Option KrbPriv
  decode_encodePriv : ∀ {m b}, encodePriv m = some b → decodePriv b = some m ∧ b.head? = some 0x75

section
variable [Primitives] [PrivDer]

/-! ## Sending -/

inductive MkError
  | localAddrRequired
  | noKey
  | unsupportedEtype
  | crypto (e : CryptoError)
  | der
  | repeated
deriving Repr, DecidableEq

def require {α : Type} (e : MkError) : Option α → Except MkError α
  | some a => .ok a
  | none => .error e

structure Sender where
  doTime : Bool
  retTime : Bool
  doSequence : Bool
  retSequence : Bool
  localAddr : Option HostAddress
  remoteAddr : Option HostAddress
  localSeq : UInt32
  key : Option EncryptionKey
  sendSubkey : Option EncryptionKey
  cstate : Option Block
  rcache : List Bytes

structure Input where
  now : Int × Int32
  confounder : Block
  userData : Bytes

namespace Sender

def sendKey (s : Sender) : Option EncryptionKey := s.sendSubkey.or s.key

def part (s : Sender) (input : Input) (sAddress : HostAddress) : EncKrbPrivPart :=
  let timed := s.doTime || s.retTime
  { userData := input.userData
    timestamp := if timed then some input.now.1 else none
    usec := if timed then some input.now.2 else none
    seqNumber := if s.doSequence || s.retSequence then some s.localSeq else none
    sAddress
    rAddress := s.remoteAddr }

def closePart (s : Sender) (e : Etype) (key : Bytes) (confounder : Block) (der : Bytes) : Except CryptoError Bytes × Sender :=
  match s.cstate with
  | some state =>
    let (r, next) := e.encryptWithState key krbPrivEncpart confounder der state
    (r, { s with cstate := some next })
  | none => (e.encrypt key krbPrivEncpart confounder der, s)

def remember (s : Sender) (tag : Bytes) : Except MkError Sender :=
  if !s.doTime then .ok s
  else if s.rcache.contains tag then .error .repeated
  else .ok { s with rcache := tag :: s.rcache }

def advance (s : Sender) : Sender :=
  if s.doSequence || s.retSequence then { s with localSeq := s.localSeq + 1 } else s

def finish (s : Sender) (e : Etype) (keytype : Int32) (cipher : Bytes) : Except MkError Bytes × Sender :=
  match PrivDer.encodePriv ⟨5, 21, keytype, cipher⟩ with
  | none => (.error .der, s)
  | some out =>
    match s.remember (cipher.drop (cipher.length - e.checksumSize)) with
    | .error err => (.error err, s)
    | .ok s => (.ok out, s.advance)

def prepare (s : Sender) (input : Input) : Except MkError (EncryptionKey × Etype × Bytes) := do
  let sAddress ← require .localAddrRequired s.localAddr
  let key ← require .noKey s.sendKey
  let e ← require .unsupportedEtype (findEtype key.keytype)
  let der ← require .der (PrivDer.encodePart (s.part input sAddress))
  .ok (key, e, der)

def mkPriv (s : Sender) (input : Input) : Except MkError Bytes × Sender :=
  match s.prepare input with
  | .error err => (.error err, s)
  | .ok (key, e, der) =>
    match s.closePart e key.keyBytes input.confounder der with
    | (.error err, s) => (.error (.crypto err), s)
    | (.ok cipher, s) => s.finish e key.keytype cipher

def mkPrivs (s : Sender) : List Input → Option (List Bytes × Sender)
  | [] => some ([], s)
  | input :: inputs =>
    match s.mkPriv input with
    | (.error _, _) => none
    | (.ok msg, s) => (s.mkPrivs inputs).map fun r => (msg :: r.1, r.2)

end Sender

/-! ## Opening -/

structure PrivKeys where
  key : Option EncryptionKey
  recvSubkey : Option EncryptionKey
  cstate : Option Block
  localAddr : Option HostAddress
  remoteAddr : Option HostAddress
deriving DecidableEq

namespace PrivKeys

def recvKey (κ : PrivKeys) : Option EncryptionKey := κ.recvSubkey.or κ.key

def sealed (κ : PrivKeys) (msg : Bytes) : Option (Etype × Bytes × Bytes) := do
  guard (msg.head? = some 0x75)
  let m ← PrivDer.decodePriv msg
  guard (m.pvno = 5 ∧ m.msgType = 21)
  let key ← κ.recvKey
  let e ← findEtype m.etype
  some (e, key.keyBytes, m.cipher)

def openCipher (κ : PrivKeys) (e : Etype) (key cipher : Bytes) : Except CryptoError Bytes × PrivKeys :=
  match κ.cstate with
  | some state =>
    let (r, next) := e.decryptWithState key krbPrivEncpart cipher state
    (r, { κ with cstate := some next })
  | none => (e.decrypt key krbPrivEncpart cipher, κ)

def decryptPriv (κ : PrivKeys) (msg : Bytes) : Option (Etype × Bytes × Bytes) × PrivKeys :=
  match κ.sealed msg with
  | none => (none, κ)
  | some (e, key, cipher) =>
    match κ.openCipher e key cipher with
    | (.error _, κ) => (none, κ)
    | (.ok plain, κ) => (some (e, cipher, plain), κ)

def checkAddrs (κ : PrivKeys) (part : EncKrbPrivPart) : Bool :=
  κ.remoteAddr.all (· = part.sAddress) ∧ part.rAddress.all fun r => κ.localAddr.all (· = r)

def openPart (κ : PrivKeys) (e : Etype) (cipher plain : Bytes) : Except ApError Opened :=
  match PrivDer.decodePart plain with
  | none => .error .unreadable
  | some part =>
    if κ.checkAddrs part then
      .ok ⟨part.timestamp, cipher.drop (cipher.length - e.checksumSize), part.seqNumber, part.userData⟩
    else .error .unreadable

def openPriv (κ : PrivKeys) (msg : Bytes) : Except ApError Opened × PrivKeys :=
  match κ.decryptPriv msg with
  | (none, κ) => (.error .unreadable, κ)
  | (some (e, cipher, plain), κ) => (κ.openPart e cipher plain, κ)

def clear (κ : PrivKeys) (msg : Bytes) : Option Bytes := do
  let (_, _, plain) ← (κ.decryptPriv msg).1
  let part ← PrivDer.decodePart plain
  some part.userData

end PrivKeys

/-- `rd_safe` up to its checks; it has no cipher state. -/
class SafeOpener where
  openSafe : PrivKeys → Bytes → Except ApError Opened

instance [SafeOpener] : Opener PrivKeys where
  openMessage
    | .safe, κ, msg => (SafeOpener.openSafe κ msg, κ)
    | .priv, κ, msg => κ.openPriv msg

/-- The data of every message that decrypted, in calls of `rd_priv`. -/
def AuthContext.clears [SafeOpener] (ctx : AuthContext PrivKeys) : List (Bytes × Int) → List Bytes
  | [] => []
  | (msg, now) :: calls => (ctx.crypto.clear msg).toList ++ clears (ctx.rd ⟨.priv, msg, now⟩).2 calls

end

end PrivSafe

end Krb5Rs
