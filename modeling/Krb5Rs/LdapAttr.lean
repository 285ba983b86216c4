import Krb5Rs.Scan
import Krb5Rs.Store

/-!
# Values of directory attributes

From the LDAP backend: the names of policies in distinguished names
(`filter_correct`, `policydn_to_name`). Strings are their bytes; what is escaped
is ASCII.
-/

namespace Krb5Rs

open Wire (Bytes)
open Utf8 (Str)

namespace Ldap

/-! ## Policy names -/

/-- `"*()\\ #\"+,;<>"`. -/
def filterSpecials : Bytes := [42, 40, 41, 92, 32, 35, 34, 43, 44, 59, 60, 62]

def filterByte (b : UInt8) : Bytes := if b ∈ filterSpecials then 92 :: Scan.hexText b else [b]

def filterCorrect (s : Str) : Bytes := s.bytes.flatMap filterByte

/-- `u8::from_str_radix(h, 16)`, which takes a sign. -/
def hexPair (a b : UInt8) : Option UInt8 :=
  if Scan.isHex a ∧ Scan.isHex b then some (UInt8.ofNat (16 * Scan.hexValue a + Scan.hexValue b))
  else if a = 43 ∧ Scan.isHex b then some (UInt8.ofNat (Scan.hexValue b))
  else none

/-- The value up to an unescaped `,` or `+`. -/
def rdnValue : Bytes → Option Bytes
  | [] => some []
  | c :: rest =>
    if c = 44 ∨ c = 43 then some []
    else if c = 92 then
      match rest with
      | [] => none
      | [a] => some [a]
      | a :: b :: rest =>
        match hexPair a b with
        | some v => (rdnValue rest).map (v :: ·)
        | none => (rdnValue (b :: rest)).map (a :: ·)
    else (rdnValue rest).map (c :: ·)

def policydnToName (dn : Bytes) : Except StoreError Str :=
  let bad := StoreError.corrupt ("invalid policy DN " ++ (Utf8.text dn).quote)
  match dn.dropWhile (· ≠ 61) with
  | [] => .error bad
  | _ :: rest =>
    match (rdnValue rest).bind Str.ofUtf8 with
    | some name => .ok name
    | none => .error bad

/-- The DN of a policy in the container `suffix`. -/
def policyDn (name : Str) (suffix : Bytes) : Bytes := ascii "cn=" ++ filterCorrect name ++ 44 :: suffix

theorem hexPair_hexText : ∀ b ∈ filterSpecials, ∃ a c, Scan.hexText b = [a, c] ∧ hexPair a c = some b := by
  intro b hb
  refine ⟨_, _, rfl, ?_⟩
  revert b
  decide +kernel

theorem rdnValue_filterByte (b : UInt8) (rest : Bytes) :
    rdnValue (filterByte b ++ rest) = (rdnValue rest).map (b :: ·) := by
  unfold filterByte
  by_cases h : b ∈ filterSpecials
  · obtain ⟨a, c, htext, hpair⟩ := hexPair_hexText b h
    simp [h, htext, rdnValue, hpair]
  · have hb : b ≠ 44 ∧ b ≠ 43 ∧ b ≠ 92 := by
      refine ⟨?_, ?_, ?_⟩ <;> rintro rfl <;> exact h (by decide)
    rw [if_neg h, List.singleton_append, rdnValue.eq_def]
    simp [hb]

theorem rdnValue_flatMap (s rest : Bytes) : rdnValue (s.flatMap filterByte ++ 44 :: rest) = some s := by
  induction s with
  | nil =>
    rw [List.flatMap_nil, List.nil_append, rdnValue.eq_def]
    rfl
  | cons b s ih => rw [List.flatMap_cons, List.append_assoc, rdnValue_filterByte, ih, Option.map_some]

theorem policydnToName_policyDn (name : Str) (suffix : Bytes) : policydnToName (policyDn name suffix) = .ok name := by
  have hdrop : (policyDn name suffix).dropWhile (· ≠ 61) = 61 :: (filterCorrect name ++ 44 :: suffix) := by
    simp [policyDn, ascii]
  rw [policydnToName, hdrop]
  simp [filterCorrect, rdnValue_flatMap, Str.ofUtf8, name.valid]

/-- The name of a policy is read back from its DN, so that no two policies have the same one. -/
theorem policy_name_from_dn (name : Str) (suffix : Bytes) : policydnToName (policyDn name suffix) = .ok name ∧
      ∀ name' suffix', policyDn name' suffix' = policyDn name suffix → name' = name := by
  refine ⟨policydnToName_policyDn name suffix, fun name' suffix' h => ?_⟩
  have hname := policydnToName_policyDn name' suffix'
  rw [h, policydnToName_policyDn] at hname
  exact (Except.ok.inj hname).symm

end Ldap

end Krb5Rs
