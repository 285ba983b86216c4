import Krb5Rs.Tl

/-!
# Choosing a key of an entry

`PrincipalEntry::find_key` of `kdc/db.rs`.
-/

namespace Krb5Rs

inductive KvnoSel
  | highest
  | any
  | exact (kvno : UInt32)
deriving Repr, DecidableEq

def KeyEntry.matches (etype : Option Int32) (want : Option UInt32) (permitted : Int32 → Bool) (k : KeyEntry) : Bool :=
  etype.all (k.key.keytype = ·) && want.all (k.kvno = ·) && permitted k.key.keytype

instance kvnoMax : Std.LawfulOrderMax UInt32 where
  max_le_iff a b c := by
    rw [show max a b = if a ≤ b then b else a from rfl]
    split <;> simp only [UInt32.le_iff_toNat_le] at * <;> omega
  max_eq_or a b := by
    rw [show max a b = if a ≤ b then b else a from rfl]
    split <;> simp

namespace PrincipalEntry

variable [Alphabet]

def currentKvno (e : PrincipalEntry) : Option UInt32 := (e.keys.map (·.kvno)).max?

/-- The version a selector asks for: no answer without keys, no restriction for `any`. -/
def wanted (e : PrincipalEntry) : KvnoSel → Option (Option UInt32)
  | .highest => e.currentKvno.map some
  | .any => some none
  | .exact kvno => some (some kvno)

def findKey (e : PrincipalEntry) (etype : Option Int32) (kvno : KvnoSel) (permitted : Int32 → Bool) :
    Option KeyEntry :=
  (e.wanted kvno).bind fun want => e.keys.find? (KeyEntry.matches etype want permitted)

end PrincipalEntry

end Krb5Rs
