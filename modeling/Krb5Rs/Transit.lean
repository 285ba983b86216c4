import Krb5Rs.Profile
import Krb5Rs.Store
import Krb5Rs.Visit

/-!
# Transited realms

`protocol/transit.rs`: expanding an encoded list of transited realms
(DOMAIN-X500-COMPRESS), the path between two realms from `[capaths]` or from
their hierarchy, and the check of a list against that path. Realms are bytes.

A callback of the source may keep what it has seen, so it runs in a state of its
choosing.
-/

namespace Krb5Rs

namespace Profile

def section? (root : Node) : List Text → Option Node
  | [] => some root
  | name :: names => (root.children.find? fun c => c.value.isNone ∧ c.name = name).bind fun node => section? node names

def getValues (root : Node) (path : List Text) (key : Text) : List Text :=
  match section? root path with
  | some sec => (sec.children.filter fun c => c.name = key).filterMap (·.value)
  | none => []

end Profile

namespace Transit

open Wire (Bytes)

def maxLen : Nat := 512

def realmBranchChar : UInt8 := 46

def slash : UInt8 := 47

def comma : UInt8 := 44

def backslash : UInt8 := 92

def space : UInt8 := 32

def anonymousRealm : Bytes := ascii "WELLKNOWN:ANONYMOUS"

inductive TransitError
  | illCrTkt
  | noTktInRealm
deriving Repr, DecidableEq

/-! ## Expanding a list -/

section
variable {σ : Type}

/-- The realms between two names one of which is an ancestor of the other, the shorter one first. -/
def betweenNames (f : Bytes → StateT σ (Except TransitError) Unit) (n1 n2 : Bytes) :
    StateT σ (Except TransitError) Unit :=
  if n1.length = n2.length then if n1 = n2 then pure () else throw .illCrTkt
  else if n1.length = 0 then throw .illCrTkt
  else if n1.head? = some slash then
    if n2.head? ≠ some slash ∨ n2.take n1.length ≠ n1 then throw .illCrTkt
    else (List.range' (n1.length + 1) (n2.length - (n1.length + 1))).forM fun i =>
      if n2[i]? = some slash then f (n2.take i) else pure ()
  else if n2.head? = some slash ∨ n2.drop (n2.length - n1.length) ≠ n1 then throw .illCrTkt
  else (List.range' 1 (n2.length - n1.length - 1)).reverse.forM fun i =>
    if n2[i - 1]? = some realmBranchChar then f (n2.drop i) else pure ()

def processIntermediates (f : Bytes → StateT σ (Except TransitError) Unit) (n1 n2 : Bytes) :
    StateT σ (Except TransitError) Unit :=
  if n1.length > n2.length then betweenNames f n2 n1 else betweenNames f n1 n2

def maybeJoin (last buf : Bytes) : Except TransitError Bytes :=
  if buf.head? = some slash then if last.length + buf.length > maxLen then .error .illCrTkt else .ok (last ++ buf)
  else if buf.getLast? = some realmBranchChar then
    if last.length + buf.length > maxLen then .error .illCrTkt else .ok (buf ++ last)
  else .ok buf

structure Scanner where
  buf : Bytes
  last : Bytes
  nextLit : Bool
  intermediates : Bool

def Scanner.push (x : Scanner) (c : UInt8) : Except TransitError Scanner :=
  if x.buf.length + 1 = maxLen then .error .illCrTkt
  else .ok { x with buf := x.buf ++ [c], nextLit := false }

def fillIn (f : Bytes → StateT σ (Except TransitError) Unit) (intermediates : Bool) (buf other : Bytes) :
    StateT σ (Except TransitError) Unit :=
  if intermediates then processIntermediates f buf other else pure ()

def reportName (f : Bytes → StateT σ (Except TransitError) Unit) (last buf : Bytes) (intermediates : Bool) (other : Bytes) :
    StateT σ (Except TransitError) Bytes := do
  let buf ← liftM (maybeJoin last buf)
  f buf
  fillIn f intermediates buf other
  pure buf

def endName (f : Bytes → StateT σ (Except TransitError) Unit) (crealm : Bytes) (idx : Nat) (x : Scanner) :
    StateT σ (Except TransitError) Scanner := do
  let buf ← reportName f x.last x.buf x.intermediates (if idx = 0 then crealm else x.last)
  pure { buf := [], last := buf, nextLit := x.nextLit, intermediates := false }

def nullSubfield (crealm : Bytes) (idx : Nat) (x : Scanner) : Except TransitError Scanner :=
  if idx = 0 then
    if crealm.length ≥ maxLen then .error .illCrTkt else .ok { x with intermediates := true, last := crealm }
  else .ok { x with intermediates := true }

def scanByte (f : Bytes → StateT σ (Except TransitError) Unit) (crealm : Bytes) (idx : Nat) (c : UInt8) (x : Scanner) :
    StateT σ (Except TransitError) Scanner :=
  if x.nextLit then liftM (x.push c)
  else if c = backslash then pure { x with nextLit := true }
  else if c = comma then if x.buf.isEmpty then liftM (nullSubfield crealm idx x) else endName f crealm idx x
  else if c = space ∧ x.buf.isEmpty then pure { x with last := [] }
  else liftM (x.push c)

def scanBytes (f : Bytes → StateT σ (Except TransitError) Unit) (crealm : Bytes) :
    Nat → Bytes → Scanner → StateT σ (Except TransitError) Scanner
  | _, [], x => pure x
  | idx, c :: rest, x => do
    let x ← scanByte f crealm idx c x
    scanBytes f crealm (idx + 1) rest x

def endList (f : Bytes → StateT σ (Except TransitError) Unit) (srealm : Bytes) (x : Scanner) :
    StateT σ (Except TransitError) Unit :=
  if x.buf.isEmpty then processIntermediates f x.last srealm
  else do
    let _ ← reportName f x.last x.buf x.intermediates x.last
    pure ()

def foreachRealm (f : Bytes → StateT σ (Except TransitError) Unit) (crealm srealm transit : Bytes) :
    StateT σ (Except TransitError) Unit :=
  if transit.isEmpty then pure ()
  else do
    let x ← scanBytes f crealm 0 transit ⟨[], [], false, false⟩
    endList f srealm x

end

def decodeTransited (crealm srealm transit : Bytes) : Except TransitError (List Bytes) :=
  Prod.snd <$> foreachRealm Visit.collect crealm srealm transit []

/-! ## Walking between realms -/

structure TgsHop where
  realm : Bytes
  «instance» : Bytes
deriving Repr, DecidableEq

def hopsFrom (src : Bytes) : List Bytes → List TgsHop
  | [] => []
  | dst :: realms => ⟨src, dst⟩ :: hopsFrom dst realms

def linkRealm (v : Profile.Text) : Bytes := (v.flatMap String.utf8EncodeChar).takeWhile fun b => b ≠ 9 ∧ b ≠ 32

def capathTree (client server : Bytes) (vals : List Profile.Text) : List TgsHop :=
  let links := if (vals.head?.bind List.head?) = some '.' then [] else vals
  ⟨client, client⟩ :: hopsFrom client (links.map linkRealm ++ [server])

/-- Where the common tail of two names starts in each, and the leftmost separator in it. -/
structure Tails where
  cTail : Nat
  sTail : Nat
  dots : Option (Nat × Nat)

def comtailLoop (client server : Bytes) (sep : UInt8) : Nat → Nat → Option (Nat × Nat) → Tails
  | cp + 1, sp + 1, dots =>
    if client[cp]? ≠ server[sp]? then ⟨cp + 1, sp + 1, dots⟩
    else comtailLoop client server sep cp sp (if client[cp]? = some sep then some (cp, sp) else dots)
  | cp, sp, dots => ⟨cp, sp, dots⟩

def comtail (client server : Bytes) (sep : UInt8) : Option Tails :=
  if client.isEmpty ∨ server.isEmpty then none
  else
    let t := comtailLoop client server sep client.length server.length none
    if t.cTail = client.length then none else some t

/-- The common tail cut back to whole labels. -/
def adjtail (client server : Bytes) (sep : UInt8) (t : Tails) : Option (Nat × Nat) :=
  if (t.cTail = 0 ∨ client[t.cTail - 1]? = some sep) ∧ (t.sTail = 0 ∨ server[t.sTail - 1]? = some sep) then
    some (t.cTail, t.sTail)
  else
    match t.dots with
    | some (cd, sd) => if cd + 1 ≥ client.length ∨ sd + 1 ≥ server.length then none else some (cd + 1, sd + 1)
    | none => none

/-- The suffixes of `r` at its labels, from index `p` on with a label begun at `lp`, up to the tail. -/
def tweensFrom (r : Bytes) (rtail : Option Nat) (dotail : Bool) (sep : UInt8) : Nat → Nat → Bytes → List Bytes
  | _, _, [] => []
  | lp, p, b :: rest =>
    if b ≠ sep ∧ p + 1 ≠ r.length then tweensFrom r rtail dotail sep lp (p + 1) rest
    else if some lp = rtail ∧ !dotail then []
    else if some lp = rtail then [r.drop lp]
    else r.drop lp :: tweensFrom r rtail dotail sep (p + 1) (p + 1) rest

def tweens (r : Bytes) (rtail : Option Nat) (dotail : Bool) (sep : UInt8) : List Bytes :=
  tweensFrom r rtail dotail sep 0 0 r

def hierRealms (client server : Bytes) (sep : UInt8) : List Bytes :=
  let tails := (comtail client server sep).bind (adjtail client server sep)
  tweens client (tails.map Prod.fst) true sep ++ (tweens server (tails.map Prod.snd) false sep).reverse

def hierTree (client server : Bytes) (sep : UInt8) : List TgsHop := hopsFrom client (hierRealms client server sep)

def lossyText (b : Bytes) : Profile.Text := Utf8.chars (Utf8.lossy b)

def capathValues (capaths : Option Profile.Node) (client server : Bytes) : List Profile.Text :=
  match capaths with
  | some root => Profile.getValues root ["capaths".toList, lossyText client] (lossyText server)
  | none => []

/-- The path of `[capaths]` if there is one, else the hierarchical one. -/
def walkRealmTree (client server : Bytes) (capaths : Option Profile.Node) (sep : UInt8) :
    Except TransitError (List TgsHop) :=
  if client.isEmpty ∨ server.isEmpty ∨ client = server then .error .noTktInRealm
  else
    let vals := capathValues capaths client server
    .ok (if vals.isEmpty then hierTree client server sep else capathTree client server vals)

/-! ## The check -/

def checkTransitedList (trans crealm srealm : Bytes) (capaths : Option Profile.Node) : Except TransitError Unit := do
  let trans := if trans.getLast? = some 0 then trans.dropLast else trans
  if trans.isEmpty ∨ crealm = anonymousRealm then .ok ()
  else
    let tgs ← walkRealmTree crealm srealm capaths realmBranchChar
    Prod.fst <$> foreachRealm (Visit.demand (fun realm => tgs.any fun h => h.realm = realm) .illCrTkt) crealm srealm trans ()

end Transit

end Krb5Rs
