import Krb5Rs.Wire
import Krb5Rs.Utf8

/-!
# Store errors and principal names

`StoreError` of `kdc/store.rs` and the name types of `types/basic.rs`. Which
byte strings ASN.1 `GeneralString` admits is the encoder library's choice, the
parameter `Alphabet`.
-/

namespace Krb5Rs

open Wire (Bytes)

def ascii (s : String) : Bytes := s.toList.map fun c => UInt8.ofNat c.toNat

inductive StoreErrorKind
  | notFound
  | conflict
  | unavailable
  | corrupt
  | stale
  | rejected
  | backend
  | unsupported
  | nameMismatch
deriving Repr, DecidableEq

structure StoreError where
  kind : StoreErrorKind
  message : String
deriving Repr, DecidableEq

def StoreError.display (e : StoreError) : String := "principal store error: " ++ e.message

def StoreError.stale (message : String) : StoreError := ⟨.stale, message⟩

def StoreError.corrupt (message : String) : StoreError := ⟨.corrupt, message⟩

def StoreError.backend (message : String) : StoreError := ⟨.backend, message⟩

def StoreError.notFound (message : String) : StoreError := ⟨.notFound, message⟩

def StoreError.conflict (message : String) : StoreError := ⟨.conflict, message⟩

def StoreError.rejected (message : String) : StoreError := ⟨.rejected, message⟩

def StoreError.unavailable (message : String) : StoreError := ⟨.unavailable, message⟩

/-- The error code and status text of a refused request. -/
structure KdcError where
  code : Int32
  status : String
deriving Repr, DecidableEq

/-- The byte strings `GeneralString::from_bytes` accepts. -/
class Alphabet where
  permits : Bytes → Bool

@[reducible] def Alphabet.ascii : Alphabet := ⟨fun b => b.all (· < 128)⟩

/-- A `GeneralString`: bytes of the permitted alphabet. -/
def GeneralString [Alphabet] : Type := { b : Bytes // Alphabet.permits b = true }

instance [Alphabet] : DecidableEq GeneralString :=
  inferInstanceAs (DecidableEq { b : Bytes // Alphabet.permits b = true })

def GeneralString.bytes [Alphabet] (s : GeneralString) : Bytes := s.val

def GeneralString.fromBytes [Alphabet] (b : Bytes) : Option GeneralString :=
  if h : Alphabet.permits b = true then some ⟨b, h⟩ else none

@[simp] theorem fromBytes_bytes [Alphabet] (s : GeneralString) : GeneralString.fromBytes s.bytes = some s := by
  obtain ⟨b, hb⟩ := s
  simp [GeneralString.fromBytes, GeneralString.bytes, hb]

theorem bytes_of_fromBytes [Alphabet] {b : Bytes} {s : GeneralString}
    (h : GeneralString.fromBytes b = some s) : s.bytes = b := by
  unfold GeneralString.fromBytes at h
  split at h
  · obtain rfl := Option.some.inj h; rfl
  · cases h

theorem bytes_injective [Alphabet] {s t : GeneralString} (h : s.bytes = t.bytes) : s = t :=
  Subtype.ext h

structure PrincipalName [Alphabet] where
  nameType : Int32
  nameString : List GeneralString
deriving DecidableEq

end Krb5Rs
