import Krb5Rs.MitName

/-!
# Names as text

`unparse_name` of `ccache/mod.rs`: components and realm quoted as in a database
key, but as a string, so a component that is not UTF-8 has each of its bytes
taken for a character.
-/

namespace Krb5Rs

open Wire (Bytes)
open Utf8 (Str)

/-- The UTF-8 bytes of the character with this number below 256. -/
def latinByte (b : UInt8) : Bytes := if b < 0x80 then [b] else [0xc0 + b / 64, 0x80 + b % 64]

def componentText (c : Bytes) : Bytes := if Utf8.valid c then c else c.flatMap latinByte

section
variable [Alphabet]

def unparseNoRealm (name : PrincipalName) : Bytes := unparseComponents (name.components.map componentText)

def ccUnparseName (name : PrincipalName) (realm : Str) : Bytes :=
  unparseNoRealm name ++ 64 :: appendComponent realm.bytes

end

end Krb5Rs
