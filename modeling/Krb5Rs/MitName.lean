import Krb5Rs.Store

/-!
# MIT principal-name keys

`unparse_name` and `parse_name` of `kdb/mit/name.rs`.
-/

namespace Krb5Rs

open Wire (Bytes)
open Utf8 (Str)

def quoteByte (b : UInt8) : Bytes :=
  if b = 47 ∨ b = 64 ∨ b = 92 then [92, b]      -- `/`, `@`, `\`
  else if b = 9 then [92, 116]                  -- tab as `\t`
  else if b = 10 then [92, 110]                 -- newline as `\n`
  else if b = 8 then [92, 98]                   -- backspace as `\b`
  else if b = 0 then [92, 48]                   -- NUL as `\0`
  else [b]

def appendComponent (component : Bytes) : Bytes := component.flatMap quoteByte

def unparseComponents : List Bytes → Bytes
  | [] => []
  | [c] => appendComponent c
  | c :: cs => appendComponent c ++ 47 :: unparseComponents cs

section
variable [Alphabet]

def PrincipalName.components (name : PrincipalName) : List Bytes := name.nameString.map (·.bytes)

def unparseName (name : PrincipalName) (realm : Str) : Bytes :=
  unparseComponents name.components ++ 64 :: appendComponent realm.bytes

/-- The parser's loop variables. The components are `done`, then `current`. -/
structure NameState where
  done : List Bytes
  current : Bytes
  realm : Bytes
  inRealm : Bool
deriving Repr, DecidableEq

def NameState.init : NameState := ⟨[], [], [], false⟩

def NameState.push (s : NameState) (b : UInt8) : NameState :=
  if s.inRealm then { s with realm := s.realm ++ [b] } else { s with current := s.current ++ [b] }

def NameState.components (s : NameState) : List Bytes := s.done ++ [s.current]

def unquoteByte (b : UInt8) : UInt8 :=
  if b = 110 then 10
  else if b = 116 then 9
  else if b = 98 then 8
  else if b = 48 then 0
  else b

def parseLoop : NameState → Bytes → Except StoreError NameState
  | s, [] => .ok s
  | s, byte :: rest =>
    if byte = 92 then
      match rest with
      | [] => .error (.corrupt "MIT principal key ends in a quote character")
      | escaped :: rest => parseLoop (s.push (unquoteByte escaped)) rest
    else if byte = 47 then
      if s.inRealm then .error (.corrupt "unescaped component separator in MIT realm")
      else parseLoop { s with done := s.done ++ [s.current], current := [] } rest
    else if byte = 64 then
      if s.inRealm then .error (.corrupt "multiple unescaped realm separators in MIT key")
      else parseLoop { s with inRealm := true } rest
    else parseLoop (s.push byte) rest

/-- `k5_infer_principal_type`: `krbtgt/x` and `WELLKNOWN/..` have types of their own. -/
def inferNameType (components : List Bytes) : Int32 :=
  if components.length = 2 ∧ components.head? = some [107, 114, 98, 116, 103, 116] then 2
  else if 2 ≤ components.length ∧
      components.head? = some [87, 69, 76, 76, 75, 78, 79, 87, 78] then 11
  else 1

def generalStrings : List Bytes → Except StoreError (List GeneralString)
  | [] => .ok []
  | b :: bs =>
    match GeneralString.fromBytes b with
    | none => .error (.corrupt "invalid MIT principal component")
    | some g => (generalStrings bs).map (g :: ·)

def parseNameInner (key : Bytes) (defaultRealm : Option Bytes) :
    Except StoreError (PrincipalName × Str) :=
  if (0 : UInt8) ∈ key then .error (.corrupt "MIT principal key contains an unescaped NUL")
  else do
    let s ← parseLoop .init key
    let realm ←
      if s.inRealm then .ok s.realm
      else match defaultRealm with
        | none => .error (.corrupt "MIT principal key has no realm separator")
        | some r => .ok (s.realm ++ r)
    match Str.ofUtf8 realm with
    | none => .error (.corrupt "MIT principal realm is not UTF-8")
    | some realm => do
      let nameString ← generalStrings s.components
      .ok (⟨inferNameType s.components, nameString⟩, realm)

def parseName (key : Bytes) : Except StoreError (PrincipalName × Str) := parseNameInner key none

end

end Krb5Rs
