import Krb5Rs.Lmdb
import Krb5Rs.Flags

/-!
# Authorization of administrative requests

The `acl` and `self` modules of kadmind (`kadmind/auth.rs`,
`kdb/kadm5_auth.rs`), the matching of `kadm5.acl` entries, and the restrictions
an entry imposes on what a request may set (`kdb/restrictions.rs`).
-/

namespace Krb5Rs

open Wire (Bytes)
open Utf8 (Str)
open Flags (intersects)

/-! ## Field masks -/

namespace FieldMask

abbrev principal : UInt32 := Flags.bit 0
abbrev princExpireTime : UInt32 := Flags.bit 1
abbrev pwExpiration : UInt32 := Flags.bit 2
abbrev lastPwdChange : UInt32 := Flags.bit 3
abbrev attributes : UInt32 := Flags.bit 4
abbrev maxLife : UInt32 := Flags.bit 5
abbrev modTime : UInt32 := Flags.bit 6
abbrev modName : UInt32 := Flags.bit 7
abbrev kvno : UInt32 := Flags.bit 8
abbrev mkvno : UInt32 := Flags.bit 9
abbrev auxAttributes : UInt32 := Flags.bit 10
abbrev policy : UInt32 := Flags.bit 11
abbrev policyClr : UInt32 := Flags.bit 12
abbrev maxRlife : UInt32 := Flags.bit 13
abbrev lastSuccess : UInt32 := Flags.bit 14
abbrev lastFailed : UInt32 := Flags.bit 15
abbrev failAuthCount : UInt32 := Flags.bit 16
abbrev keyData : UInt32 := Flags.bit 17
abbrev tlData : UInt32 := Flags.bit 18

def allPrinc : UInt32 :=
  principal ||| princExpireTime ||| pwExpiration ||| lastPwdChange ||| attributes ||| maxLife ||| modTime |||
    modName ||| kvno ||| mkvno ||| auxAttributes ||| policyClr ||| policy ||| maxRlife ||| tlData ||| keyData |||
    failAuthCount

end FieldMask

/-! ## Restrictions -/

structure AclRestrictions where
  mask : UInt32
  requireAttrs : UInt32
  forbidAttrs : UInt32
  policy : Option Str
  princLifetime : Int32
  pwLifetime : Int32
  maxLife : Int32
  maxRenewableLife : Int32
deriving DecidableEq

structure RestrictedEntry where
  attributes : UInt32
  policy : Option Str
  princExpireTime : Int32
  pwExpiration : Int32
  maxLife : Int32
  maxRenewableLife : Int32
deriving DecidableEq

def tsAfter (a b : Int32) : Bool := b.toUInt32 < a.toUInt32

namespace AclRestrictions

/-- A limit on a field: it is lowered to the limit, or set to it when the request does not set it. -/
def limit (mask field : UInt32) (exceeds : Bool) (value bound : Int32) : Int32 :=
  if intersects mask field = false ∨ exceeds then bound else value

def imposeAttributes (r : AclRestrictions) (ent : RestrictedEntry) (mask : UInt32) : RestrictedEntry × UInt32 :=
  if intersects r.mask FieldMask.attributes then
    ({ ent with attributes := (ent.attributes ||| r.requireAttrs) &&& r.forbidAttrs }, mask ||| FieldMask.attributes)
  else (ent, mask)

def imposePolicy (r : AclRestrictions) (ent : RestrictedEntry) (mask : UInt32) : RestrictedEntry × UInt32 :=
  if intersects r.mask FieldMask.policyClr then (ent, Flags.remove mask FieldMask.policy ||| FieldMask.policyClr)
  else if intersects r.mask FieldMask.policy then ({ ent with policy := r.policy }, mask ||| FieldMask.policy)
  else (ent, mask)

def imposeTimes (r : AclRestrictions) (now : Int32) (ent : RestrictedEntry) (mask : UInt32) :
    RestrictedEntry × UInt32 :=
  let (ent, mask) :=
    if intersects r.mask FieldMask.princExpireTime then
      let bound := now + r.princLifetime
      ({ ent with
          princExpireTime := limit mask FieldMask.princExpireTime (tsAfter ent.princExpireTime bound)
            ent.princExpireTime bound },
        mask ||| FieldMask.princExpireTime)
    else (ent, mask)
  if intersects r.mask FieldMask.pwExpiration then
    let bound := now + r.pwLifetime
    ({ ent with
        pwExpiration := limit mask FieldMask.pwExpiration (tsAfter ent.pwExpiration bound) ent.pwExpiration bound },
      mask ||| FieldMask.pwExpiration)
  else (ent, mask)

def imposeLives (r : AclRestrictions) (ent : RestrictedEntry) (mask : UInt32) : RestrictedEntry × UInt32 :=
  let (ent, mask) :=
    if intersects r.mask FieldMask.maxLife then
      ({ ent with maxLife := limit mask FieldMask.maxLife (r.maxLife < ent.maxLife) ent.maxLife r.maxLife },
        mask ||| FieldMask.maxLife)
    else (ent, mask)
  if intersects r.mask FieldMask.maxRlife then
    ({ ent with
        maxRenewableLife := limit mask FieldMask.maxRlife (r.maxRenewableLife < ent.maxRenewableLife)
          ent.maxRenewableLife r.maxRenewableLife },
      mask ||| FieldMask.maxRlife)
  else (ent, mask)

def impose (r : AclRestrictions) (now : Int32) (ent : RestrictedEntry) (mask : UInt32) : RestrictedEntry × UInt32 :=
  let (ent, mask) := r.imposeAttributes ent mask
  let (ent, mask) := r.imposePolicy ent mask
  let (ent, mask) := r.imposeTimes now ent mask
  r.imposeLives ent mask

end AclRestrictions

section
variable [Alphabet]

/-! ## Requests -/

structure Princ where
  name : PrincipalName
  realm : Str
deriving DecidableEq

def Princ.key (p : Princ) : Bytes := unparseName p.name p.realm

inductive Request
  | addPrinc (target : Princ)
  | modPrinc (target : Princ)
  | setStr (target : Princ)
  | cpw (target : Princ)
  | chrand (target : Princ)
  | setKey (target : Princ)
  | purgeKeys (target : Princ)
  | delPrinc (target : Princ)
  | renPrinc (src dest : Princ)
  | extract (target : Princ)
  | addAlias (name target : Princ)
deriving DecidableEq

inductive Verdict
  | pass
  | noHandle
  | deny
deriving Repr, DecidableEq

def passIf (c : Bool) : Verdict := if c then .pass else .noHandle

/-! ## ACL entries -/

def aclAdd : UInt32 := 1
def aclDelete : UInt32 := 2
def aclModify : UInt32 := 4
def aclChangepw : UInt32 := 8
def aclExtract : UInt32 := 64
def aclSetkey : UInt32 := 256

structure AclEntry where
  client : Option Princ
  ops : UInt32
  target : Option Princ
  restrictions : Option AclRestrictions
deriving DecidableEq

def wildcard : Bytes := [42]

/-- A client's `*` records what it matched, up to nine of them. -/
def matchClient (refs : List Bytes) (pattern value : Bytes) : Option (List Bytes) :=
  if pattern = wildcard then some (if refs.length < 9 then refs ++ [value] else refs)
  else if pattern = value then some refs
  else none

/-- The number of a back-reference `*1` to `*9`, from 0. -/
def backReference : Bytes → Option Nat
  | [42, n] => if 49 ≤ n.toNat ∧ n.toNat ≤ 57 then some (n.toNat - 49) else none
  | _ => none

def matchTarget (refs : List Bytes) (pattern value : Bytes) : Bool :=
  if pattern = wildcard then true
  else
    match backReference pattern with
    | some i => refs[i]? = some value
    | none => pattern = value

def matchRealm (pattern value : Bytes) : Bool := pattern = wildcard ∨ pattern = value

def matchClientPrinc (pattern p : Princ) : Option (List Bytes) :=
  if pattern.name.nameString.length = p.name.nameString.length ∧ matchRealm pattern.realm.bytes p.realm.bytes then
    (pattern.name.components.zip p.name.components).foldlM (fun refs c => matchClient refs c.1 c.2) []
  else none

def matchTargetPrinc (refs : List Bytes) (pattern p : Princ) : Bool :=
  pattern.name.nameString.length = p.name.nameString.length ∧ matchRealm pattern.realm.bytes p.realm.bytes ∧
    (pattern.name.components.zip p.name.components).all fun c => matchTarget refs c.1 c.2

def AclEntry.clientRefs (e : AclEntry) (client : Princ) : Option (List Bytes) :=
  match e.client with
  | none => some []
  | some pattern => matchClientPrinc pattern client

def AclEntry.applies (e : AclEntry) (client target : Princ) : Bool :=
  match e.clientRefs client with
  | none => false
  | some refs =>
    match e.target with
    | none => true
    | some pattern => matchTargetPrinc refs pattern target

def aclCheck (acl : List AclEntry) (op : UInt32) (client target : Princ) : Option (Option AclRestrictions) :=
  match acl.find? (·.applies client target) with
  | none => none
  | some e => if intersects e.ops op then some e.restrictions else none

/-! ## Modules -/

def aclAuthorize (acl : List AclEntry) (client : Princ) (req : Request) : Verdict × Option AclRestrictions :=
  let check := fun op target => aclCheck acl op client target
  let simple := fun op target => (passIf (check op target).isSome, none)
  let restricted := fun (op : UInt32) (target : Princ) =>
    match check op target with
    | some r => (Verdict.pass, r)
    | none => (Verdict.noHandle, none)
  match req with
  | .addPrinc target => restricted aclAdd target
  | .modPrinc target => restricted aclModify target
  | .setStr target => simple aclModify target
  | .purgeKeys target => simple aclModify target
  | .cpw target => simple aclChangepw target
  | .chrand target => simple aclChangepw target
  | .setKey target => simple aclSetkey target
  | .delPrinc target => simple aclDelete target
  | .renPrinc src dest => (passIf ((check aclDelete src).isSome ∧ check aclAdd dest = some none), none)
  | .extract target => simple aclExtract target
  | .addAlias name target => (passIf (check aclAdd name = some none ∧ (check aclModify target).isSome), none)

def selfAuthorize (client : Princ) : Request → Verdict × Option AclRestrictions
  | .cpw target => (passIf (client = target), none)
  | .chrand target => (passIf (client = target), none)
  | .purgeKeys target => (passIf (client = target), none)
  | _ => (.noHandle, none)

def combine (answers : List (Verdict × Option AclRestrictions)) : Option (List AclRestrictions) :=
  if Verdict.deny ∈ answers.map (·.1) then none
  else if Verdict.pass ∈ answers.map (·.1) then some (answers.filterMap (·.2))
  else none

def authorize (acl : List AclEntry) (client : Princ) (req : Request) : Option (List AclRestrictions) :=
  combine [aclAuthorize acl client req, selfAuthorize client req]

end

end Krb5Rs
