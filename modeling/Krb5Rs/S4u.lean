import Krb5Rs.Admin

/-!
# Constrained delegation

Who may act for a user before which service: `check_s4u2proxy_policy` of
`kdc/s4u.rs` over the delegation lists that `AdminOps` keeps with an entry, and
`PrincipalName::from_str` of `types/basic.rs`, by which the names of a list are
read. Decoding the DER of PA-PAC-OPTIONS is a parameter.
-/

namespace Krb5Rs

open Wire (Bytes)
open Utf8 (Str)

/-! ## Names of a list -/

def rsplitOnce (sep : UInt8) : Bytes → Option (Bytes × Bytes)
  | [] => none
  | b :: rest =>
    match rsplitOnce sep rest with
    | some (before, after) => some (b :: before, after)
    | none => if b = sep then some ([], rest) else none

/-- `component` stands for the text that quotes it with the reason why it is no `GeneralString`. -/
inductive ParsePrincipalError where
  | text (message : String)
  | component (s : Bytes)
deriving Repr, DecidableEq

section
variable [Alphabet]

def tryGeneralString (s : Bytes) : Except ParsePrincipalError GeneralString :=
  match GeneralString.fromBytes s with
  | some g => .ok g
  | none => .error (.component s)

def hostNameType (components : List Bytes) : Int32 := if components.length = 2 then 3 else 1

def PrincipalName.fromStr (s : Bytes) : Except ParsePrincipalError PrincipalName :=
  if s = [] then .error (.text "empty string")
  else if 1 < s.count 64 then .error (.text "multiple '@' separators")
  else
    let namePart := (s.splitOn 64).headD s
    if namePart = [] then .error (.text "empty name before @")
    else
      let components := namePart.splitOn 47
      if components.any List.isEmpty then .error (.text "empty component in principal name")
      else do
        let nameString ← components.mapM tryGeneralString
        .ok ⟨hostNameType components, nameString⟩

def namesEqual (a b : PrincipalName) : Bool := a.nameString = b.nameString

def isOkAnd {ε α : Type} (result : Except ε α) (p : α → Bool) : Bool :=
  match result with
  | .ok a => p a
  | .error _ => false

def listNames (entry defaultRealm : Str) (name : PrincipalName) (realm : Str) : Bool :=
  let parts := (rsplitOnce 64 entry.bytes).getD (entry.bytes, defaultRealm.bytes)
  isOkAnd (PrincipalName.fromStr parts.1) (namesEqual · name) && parts.2 = realm.bytes

def parsePrincipal (s defaultRealm : Str) : Except StoreError (PrincipalName × Str) :=
  parseNameInner s.bytes (some defaultRealm.bytes)

end

/-! ## The options of the client -/

structure PaData where
  padataType : Int32
  padataValue : Bytes
deriving Repr, DecidableEq

/-- The DER of PA-PAC-OPTIONS: the bits of its flags. -/
class PacOptions where
  decode : Bytes → Option (List Bool)

def paPacOptions : Int32 := 167
def paPacOptionsRbcd : UInt32 := 0x10000000
def kdcErrBadoption : Int32 := 13

def flagBits (flags : List Bool) : UInt32 :=
  (flags.take 32).zipIdx.foldl (fun bits flag =>
    if flag.1 then bits ||| (0x80000000 >>> UInt32.ofNat flag.2) else bits) 0

section
variable [PacOptions]

def pacOptionsBits (padata : Option (List PaData)) : Except KdcError UInt32 :=
  match (padata.getD []).find? (·.padataType = paPacOptions) with
  | none => .ok 0
  | some pa =>
    match PacOptions.decode pa.padataValue with
    | none => .error ⟨60, "DECODE_PA_PAC_OPTIONS"⟩
    | some flags => .ok (flagBits flags)

def supportsRbcd (padata : Option (List PaData)) : Except KdcError Bool := do
  let bits ← pacOptionsBits padata
  .ok (bits &&& paPacOptionsRbcd ≠ 0)

/-! ## The policy -/

variable [Alphabet]

def checkDelegationLists (rbcd : Bool) (impersonatorName : PrincipalName × Str) (impersonator : PrincipalEntry)
    (resourceName : PrincipalName × Str) (resource : PrincipalEntry) (isCrossrealm : Bool) : Except KdcError Unit :=
  if rbcd && resource.allowedToDelegateFrom.any fun e =>
      listNames e resource.realm impersonatorName.1 impersonatorName.2 then .ok ()
  else if !isCrossrealm && impersonator.allowedToDelegateTo.any fun e =>
      listNames e impersonator.realm resourceName.1 resourceName.2 then .ok ()
  else
    -- a list was read, and it did not have the name
    let denied := rbcd || !isCrossrealm
    .error ⟨kdcErrBadoption, if denied then "NOT_ALLOWED_TO_DELEGATE" else "UNSUPPORTED_S4U2PROXY_REQUEST"⟩

def checkS4u2proxyPolicy (padata : Option (List PaData)) (impersonatorName : PrincipalName × Str)
    (impersonator : PrincipalEntry) (resourceName : PrincipalName × Str) (resource : PrincipalEntry)
    (isCrossrealm isReferral : Bool) : Except KdcError Unit := do
  let rbcd ← supportsRbcd padata
  if isReferral then
    -- the policy is checked in the resource's realm; only an RBCD client has use for a referral
    if rbcd then .ok () else .error ⟨kdcErrBadoption, "UNSUPPORTED_S4U2PROXY_REQUEST"⟩
  else checkDelegationLists rbcd impersonatorName impersonator resourceName resource isCrossrealm

end

/-! ## Lists over time -/

structure ListUpdate where
  clear : Bool
  add : List Str

def builtList (realm : Str) (updates : List ListUpdate) : List Str :=
  updates.foldl (fun list update => updateList realm list update.clear update.add) []

def addedNames (updates : List ListUpdate) : List Str :=
  updates.foldl (fun names update => (if update.clear then [] else names) ++ update.add) []

end Krb5Rs
