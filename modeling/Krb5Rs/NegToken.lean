import Krb5Rs.Spnego

/-!
# The DER of negotiation tokens

`gssapi/token.rs` and `gssapi/spnego/der.rs`: lengths are worked out beforehand by
`der_value_len`, and read back by a cursor that goes on after a missing field and
remembers a malformed one.
-/

namespace Krb5Rs

namespace Spnego

open Wire (Bytes)

/-! ## Framing -/

/-- The bytes a length takes; a `usize` has eight. -/
def lenBytes : Nat → Nat → Nat
  | 0, _ => 0
  | fuel + 1, l => if l = 0 then 0 else lenBytes fuel (l / 256) + 1

def derTaglen (tag : UInt8) (len : Nat) : Bytes :=
  if len < 0x80 then [tag, UInt8.ofNat len]
  else tag :: (0x80 ||| UInt8.ofNat (lenBytes 8 len)) :: Wire.be (lenBytes 8 len) len

def derValueLen (len : Nat) : Nat :=
  1 + len + if len < 0x80 then 1 else if len ≤ 0xff then 2 else if len ≤ 0xffff then 3 else 4

def derReadLen : Bytes → Option (Nat × Bytes)
  | [] => none
  | b :: rest =>
    if b < 0x80 then some (b.toNat, rest)
    else
      let n := (b &&& 0x7f).toNat
      if n = 0 ∨ 4 < n ∨ rest.length < n then none else some (Wire.ofBe (rest.take n), rest.drop n)

def parseTokenHeader (tok : Bytes) : Option (Bytes × Bytes) := do
  guard (tok.head? = some 0x60)
  let (len, rest) ← derReadLen (tok.drop 1)
  guard (len = rest.length)
  guard (rest.head? = some 0x06)
  let (oidLen, rest) ← derReadLen (rest.drop 1)
  guard (oidLen ≤ rest.length)
  some (rest.take oidLen, rest.drop oidLen)

/-! ## The cursor -/

structure In where
  buf : Bytes
  bad : Bool
deriving Repr, DecidableEq

namespace In

def new (buf : Bytes) : In := ⟨buf, false⟩

def lenLoop : Nat → Nat → Bytes → Except Bytes (Nat × Bytes)
  | 0, len, buf => .ok (len, buf)
  | _ + 1, _, [] => .error []
  | n + 1, len, b :: buf =>
    if 2 ^ 64 ≤ len * 256 + b.toNat then .error (b :: buf) else lenLoop n (len * 256 + b.toNat) buf

def readLen (lenbyte : UInt8) (buf : Bytes) : Except Bytes (Nat × Bytes) :=
  if lenbyte < 0x80 then .ok (lenbyte.toNat, buf) else lenLoop (lenbyte &&& 0x7f).toNat 0 buf

/-- The contents of a value with `tag`. Without the tag nothing is consumed; with it, a bad length
or too few bytes spoil the cursor. -/
def value (i : In) (tag : UInt8) : Option Bytes × In :=
  if i.bad ∨ i.buf.head? ≠ some tag then (none, i)
  else
    match i.buf.drop 1 with
    | [] => (none, ⟨[], true⟩)
    | lenbyte :: rest =>
      match readLen lenbyte rest with
      | .error left => (none, ⟨left, true⟩)
      | .ok (len, contents) =>
        if contents.length < len then (none, ⟨contents, true⟩)
        else (some (contents.take len), ⟨contents.drop len, false⟩)

def required (i : In) (tag : UInt8) (e : GssError) : Except GssError (Bytes × In) :=
  match i.value tag with
  | (some v, rest) => .ok (v, rest)
  | (none, _) => .error e

def field {α : Type} (i : In) (tag : UInt8) (holds : Bytes → Except GssError α) : Except GssError (Option α × In) :=
  match i.value tag with
  | (none, rest) => .ok (none, rest)
  | (some v, rest) => do
    let a ← holds v
    .ok (some a, rest)

end In

def holding (tag : UInt8) (e : GssError) (v : Bytes) : Except GssError Bytes := do
  let (contents, _) ← (In.new v).required tag e
  .ok contents

/-! ## Mechanism lists -/

def tagOid : UInt8 := 0x06
def tagOctetString : UInt8 := 0x04
def tagSequence : UInt8 := 0x30
def tagEnumerated : UInt8 := 0x0a
def ctx (n : UInt8) : UInt8 := 0xa0 ||| n

def putOid (oid : Bytes) : Bytes := derTaglen tagOid oid.length ++ oid

def mechSetLen (mechs : List Bytes) : Nat := mechs.foldr (fun o sum => derValueLen o.length + sum) 0

def putMechSet (mechs : List Bytes) : Bytes := derTaglen tagSequence (mechSetLen mechs) ++ mechs.flatMap putOid

/-- The loop over the elements; each one takes two bytes at least. -/
def mechLoop : Nat → In → Option (List Bytes × In)
  | 0, seq => some ([], seq)
  | fuel + 1, seq =>
    if seq.bad ∨ seq.buf = [] then some ([], seq)
    else
      match seq.value tagOid with
      | (none, _) => none
      | (some oid, seq) => (mechLoop fuel seq).map fun r => (oid :: r.1, r.2)

def getMechSet (field : Bytes) : Option (List Bytes) :=
  match (In.new field).value tagSequence with
  | (none, _) => none
  | (some contents, _) =>
    match mechLoop contents.length (In.new contents) with
    | none => none
    | some (mechs, seq) => if seq.bad then none else some mechs

/-! ## Initial tokens -/

def putField (tag inner : UInt8) (v : Bytes) : Bytes :=
  derTaglen tag (derValueLen v.length) ++ (derTaglen inner v.length ++ v)

def putOptional (tag inner : UInt8) (v : Option Bytes) : Bytes := (v.map (putField tag inner)).getD []

def initFields (derMechTypes : Bytes) (mechToken mic : Option Bytes) (negHintsCompat : Bool) : Bytes :=
  derTaglen (ctx 0) derMechTypes.length ++ derMechTypes ++
    (putOptional (ctx 2) tagOctetString mechToken ++
      putOptional (ctx 3) (if negHintsCompat then tagSequence else tagOctetString) mic)

def encodeNegTokenInit (derMechTypes : Bytes) (mechToken mic : Option Bytes) (negHintsCompat : Bool) : Bytes :=
  let fields := initFields derMechTypes mechToken mic negHintsCompat
  let choice := derTaglen tagSequence fields.length ++ fields
  let body := derTaglen (ctx 0) choice.length ++ choice
  derTaglen tagHeader (derValueLen mechSpnego.length + body.length) ++
    (derTaglen tagOid mechSpnego.length ++ mechSpnego ++ body)

structure InitToken extends NegTokenInit where
  reqFlags : Option UInt8

/-- Exactly `03 02 01` and a byte of flags. -/
def getReqFlags (f : Bytes) : Except GssError UInt8 :=
  match f with
  | [0x03, 0x02, 0x01, flags] => .ok (flags >>> 1)
  | _ => .error .defectiveToken

def requireMechs (field : Bytes) : Except GssError (List Bytes) :=
  if field = [] then .error .defectiveToken
  else
    match getMechSet field with
    | some mechs => .ok mechs
    | none => .error .failure

def unspoilt {α : Type} (i : In) (a : α) : Except GssError α := if i.bad then .error .defectiveToken else .ok a

def decodeInitFields (seq : In) : Except GssError (InitToken × Bytes) := do
  let (field, seq) ← seq.required (ctx 0) .defectiveToken
  let mechTypes ← requireMechs field
  let (reqFlags, seq) ← seq.field (ctx 1) getReqFlags
  let (mechToken, seq) ← seq.field (ctx 2) (holding tagOctetString .failure)
  let (mechListMic, seq) ← seq.field (ctx 3) (holding tagOctetString .failure)
  unspoilt seq (⟨⟨mechTypes, mechToken, mechListMic⟩, reqFlags⟩, field)

def thisMech (framed : In) : Except GssError In := do
  let (oid, framed) ← framed.required tagOid .defectiveToken
  if oid = mechSpnego then .ok framed else .error .defectiveToken

def decodeNegTokenInit (tok : Bytes) : Except GssError (InitToken × Bytes) := do
  let (framed, input) ← (In.new tok).required tagHeader .defectiveToken
  let framed ← unspoilt input (In.new framed)
  let framed ← thisMech framed
  let (choice, _) ← framed.required (ctx 0) .defectiveToken
  let (fields, _) ← (In.new choice).required tagSequence .defectiveToken
  decodeInitFields (In.new fields)

/-! ## Replies -/

def NegState.code : NegState → UInt8
  | .acceptCompleted => 0
  | .acceptIncomplete => 1
  | .reject => 2
  | .requestMic => 3

def nonEmpty (token : Option Bytes) : Option Bytes := token.filter (· ≠ [])

def respFields (state : NegState) (supportedMech token mic : Option Bytes) : Bytes :=
  putField (ctx 0) tagEnumerated [state.code] ++ (putOptional (ctx 1) tagOid supportedMech ++
    (putOptional (ctx 2) tagOctetString (nonEmpty token) ++ putOptional (ctx 3) tagOctetString mic))

def encodeNegTokenResp (state : NegState) (supportedMech token mic : Option Bytes) : Bytes :=
  putField (ctx 1) tagSequence (respFields state supportedMech token mic)

def getNegState (f : Bytes) : Except GssError NegState := do
  let en ← holding tagEnumerated .defectiveToken f
  match en with
  | [0] => .ok .acceptCompleted
  | [1] => .ok .acceptIncomplete
  | [2] => .ok .reject
  | [3] => .ok .requestMic
  | _ => .error .defectiveToken

/-- A malformed MIC is an error only behind a response token. -/
def getMic (responseToken : Option Bytes) (f : Bytes) : Except GssError (Option Bytes) :=
  match (In.new f).value tagOctetString with
  | (some mic, _) => .ok (some mic)
  | (none, _) => if responseToken.isSome then .error .defectiveToken else .ok none

/-- A MIC that repeats the response token is none. -/
def dropDuplicate (responseToken mic : Option Bytes) : Option Bytes :=
  if mic.isSome ∧ mic = responseToken then none else mic

def decodeRespFields (seq : In) : Except GssError NegTokenResp := do
  let (negState, seq) ← seq.field (ctx 0) getNegState
  let (supportedMech, seq) ← seq.field (ctx 1) (holding tagOid .defectiveToken)
  let (responseToken, seq) ← seq.field (ctx 2) (holding tagOctetString .defectiveToken)
  let (mic, seq) ← seq.field (ctx 3) (getMic responseToken)
  unspoilt seq ⟨negState, supportedMech, responseToken, dropDuplicate responseToken mic.join⟩

def openSequence (seq : In) : In :=
  match seq.value tagSequence with
  | (some inner, _) => In.new inner
  | (none, seq) => seq

def decodeNegTokenResp (body : Bytes) : Except GssError NegTokenResp := do
  let (seq, _) ← (In.new body).required (ctx 1) .defectiveToken
  decodeRespFields (openSequence (In.new seq))

@[reducible] def derCodec : SpnegoDer where
  parseTokenHeader := parseTokenHeader
  decodeNegTokenInit := fun tok => (decodeNegTokenInit tok).map fun r => (r.1.toNegTokenInit, r.2)
  decodeNegTokenResp := decodeNegTokenResp
  putMechSet := putMechSet

end Spnego

end Krb5Rs
