import Krb5Rs.Wire

/-!
# ONC RPC messages

The XDR primitives of `rpc/xdr.rs` and the call and reply messages of
`rpc/mod.rs`. A reader's error is the text of the source's `XdrError`.
-/

namespace Krb5Rs

open Wire (Bytes)

/-! ## XDR -/

namespace Xdr

def u32 (v : UInt32) : Bytes := Wire.be 4 v.toNat

def fixed (v : Bytes) : Bytes := v ++ List.replicate ((4 - v.length % 4) % 4) 0

/-- Variable-length data; a length above `u32::MAX` is written as the maximum. -/
def varOpaque (v : Bytes) : Bytes := u32 (UInt32.ofNat (min v.length (2 ^ 32 - 1))) ++ fixed v

def readU32 : Wire.Reader String UInt32 := do
  let b ← Wire.take "truncated" 4
  pure (UInt32.ofNat (Wire.ofBe b))

def readFixed (n : Nat) : Wire.Reader String Bytes := do
  let out ← Wire.take "truncated" n
  let _ ← Wire.take "truncated" ((4 - n % 4) % 4)
  pure out

def readOpaqueMax (max : Nat) : Wire.Reader String Bytes := do
  let n ← readU32
  if max < n.toNat then Wire.fail "opaque too long" else readFixed n.toNat

/-- `usize::MAX` bounds no 32-bit length. -/
def readOpaque : Wire.Reader String Bytes := readOpaqueMax (2 ^ 64 - 1)

end Xdr

/-! ## Messages -/

def rpcVersion : UInt32 := 2
def rpcsecGss : UInt32 := 6
def maxAuthBytes : Nat := 400
def msgCall : UInt32 := 0
def msgReply : UInt32 := 1
def msgAccepted : UInt32 := 0
def msgDenied : UInt32 := 1

structure OpaqueAuth where
  flavor : UInt32
  body : Bytes
deriving Repr, DecidableEq

def OpaqueAuth.none : OpaqueAuth := ⟨0, []⟩

def OpaqueAuth.write (a : OpaqueAuth) : Bytes := Xdr.u32 a.flavor ++ Xdr.varOpaque a.body

inductive AcceptStat
  | success
  | progUnavail
  | progMismatch (low high : UInt32)
  | procUnavail
  | garbageArgs
  | systemErr
deriving Repr, DecidableEq

inductive AuthStat
  | ok
  | badCred
  | rejectedCred
  | badVerf
  | rejectedVerf
  | tooWeak
  | invalidResp
  | failed
  | gssCredProblem
  | gssCtxProblem
  | other (v : UInt32)
deriving Repr, DecidableEq

def AuthStat.code : AuthStat → UInt32
  | .ok => 0
  | .badCred => 1
  | .rejectedCred => 2
  | .badVerf => 3
  | .rejectedVerf => 4
  | .tooWeak => 5
  | .invalidResp => 6
  | .failed => 7
  | .gssCredProblem => 13
  | .gssCtxProblem => 14
  | .other v => v

structure CallHeader where
  xid : UInt32
  prog : UInt32
  vers : UInt32
  proc : UInt32
  cred : OpaqueAuth
  verf : OpaqueAuth
deriving Repr, DecidableEq

/-- The bytes from `xid` through the credential, which RPCSEC_GSS signs. -/
def CallHeader.signedPart (h : CallHeader) : Bytes :=
  Xdr.u32 h.xid ++ Xdr.u32 msgCall ++ Xdr.u32 rpcVersion ++ Xdr.u32 h.prog ++ Xdr.u32 h.vers ++
    Xdr.u32 h.proc ++ h.cred.write

structure Call where
  header : CallHeader
  args : Bytes
deriving Repr, DecidableEq

inductive Reply
  | accepted (verf : OpaqueAuth) (stat : AcceptStat) (results : Bytes)
  | rpcMismatch (low high : UInt32)
  | authError (stat : AuthStat)
deriving Repr, DecidableEq

def AcceptStat.body (results : Bytes) : AcceptStat → Bytes
  | .success => Xdr.u32 0 ++ results
  | .progUnavail => Xdr.u32 1
  | .progMismatch low high => Xdr.u32 2 ++ Xdr.u32 low ++ Xdr.u32 high
  | .procUnavail => Xdr.u32 3
  | .garbageArgs => Xdr.u32 4
  | .systemErr => Xdr.u32 5

def Reply.encode (xid : UInt32) : Reply → Bytes
  | .accepted verf stat results =>
    Xdr.u32 xid ++ Xdr.u32 msgReply ++ Xdr.u32 msgAccepted ++ verf.write ++ stat.body results
  | .rpcMismatch low high =>
    Xdr.u32 xid ++ Xdr.u32 msgReply ++ Xdr.u32 msgDenied ++ Xdr.u32 0 ++ Xdr.u32 low ++ Xdr.u32 high
  | .authError stat =>
    Xdr.u32 xid ++ Xdr.u32 msgReply ++ Xdr.u32 msgDenied ++ Xdr.u32 1 ++ Xdr.u32 stat.code

end Krb5Rs
