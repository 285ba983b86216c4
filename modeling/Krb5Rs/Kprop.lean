import Krb5Rs.MitName
import Krb5Rs.Scan

/-!
# Who may push a database

The access check of kpropd, `authorized_principal` of `kdb/kprop.rs`: the
authenticated client is written as `name@REALM` and looked for at the start of
each line of `kpropd.acl`. Enctypes are named as in `crypto/names.rs`.
-/

namespace Krb5Rs

open Wire (Bytes)
open Utf8 (Str)

/-! ## Enctype names -/

def enctypeNames : List (Int32 × List Bytes) :=
  [(6, [ascii "des3-cbc-raw"]),
    (16, [ascii "des3-cbc-sha1", ascii "des3-hmac-sha1", ascii "des3-cbc-sha1-kd"]),
    (23, [ascii "arcfour-hmac", ascii "rc4-hmac", ascii "arcfour-hmac-md5"]),
    (24, [ascii "arcfour-hmac-exp", ascii "rc4-hmac-exp", ascii "arcfour-hmac-md5-exp"]),
    (17, [ascii "aes128-cts-hmac-sha1-96", ascii "aes128-cts", ascii "aes128-sha1"]),
    (18, [ascii "aes256-cts-hmac-sha1-96", ascii "aes256-cts", ascii "aes256-sha1"]),
    (25, [ascii "camellia128-cts-cmac", ascii "camellia128-cts"]),
    (26, [ascii "camellia256-cts-cmac", ascii "camellia256-cts"]),
    (19, [ascii "aes128-cts-hmac-sha256-128", ascii "aes128-sha2"]),
    (20, [ascii "aes256-cts-hmac-sha384-192", ascii "aes256-sha2"])]

def toAsciiLowercase (b : UInt8) : UInt8 := if 65 ≤ b ∧ b ≤ 90 then b + 32 else b

def eqIgnoreAsciiCase (a b : Bytes) : Bool := a.map toAsciiLowercase = b.map toAsciiLowercase

def parseDigits (s : Bytes) : Option Int32 :=
  if Scan.value s < 2 ^ 31 then some (Int32.ofNat (Scan.value s)) else none

def enctypeFromName (s : Bytes) : Option Int32 :=
  match enctypeNames.find? fun entry => entry.2.any fun name => eqIgnoreAsciiCase name s with
  | some entry => some entry.1
  | none => if s ≠ [] ∧ s.all Scan.isDigit then parseDigits s else none

/-! ## The access check -/

def isAsciiWhitespace (b : UInt8) : Bool := b = 32 || b = 9 || b = 10 || b = 12 || b = 13

def lineAuthorizes (principal : Bytes) (etype : Int32) (line : Bytes) : Bool :=
  match line.dropPrefix? principal with
  | none => false
  | some rest =>
    if rest.head?.any fun b => !isAsciiWhitespace b then false
    else
      let rest := rest.dropWhile isAsciiWhitespace
      rest = [] || enctypeFromName rest = some etype

def authorizedPrincipal (acl principal : Str) (etype : Int32) : Bool :=
  (acl.bytes.splitOn 10).any (lineAuthorizes principal.bytes etype)

theorem valid_intercalate {l : List Bytes} (h : ∀ b ∈ l, Utf8.valid b = true) :
    Utf8.valid (List.intercalate [47] l) = true := by
  induction l with
  | nil => rfl
  | cons a l ih =>
    obtain ⟨ha, hl⟩ := List.forall_mem_cons.mp h
    cases l with
    | nil => simpa using ha
    | cons b l =>
      rw [List.intercalate_cons_cons, List.append_assoc, Utf8.valid_append a _ ha, Utf8.valid_append [47] _ rfl]
      exact ih hl

section
variable [Alphabet]

def PrincipalName.text (name : PrincipalName) : Str where
  bytes := List.intercalate [47] (name.components.map Utf8.lossy)
  valid := valid_intercalate (List.forall_mem_map.mpr fun b _ => Utf8.valid_lossyAux _ b)

structure Authenticated where
  client : PrincipalName
  crealm : Str
  etype : Int32

def Authenticated.principal (c : Authenticated) : Str where
  bytes := c.client.text.bytes ++ 64 :: c.crealm.bytes
  valid := by
    rw [Utf8.valid_append _ _ c.client.text.valid]
    exact (Utf8.valid_append [64] _ rfl).trans c.crealm.valid

end

end Krb5Rs
