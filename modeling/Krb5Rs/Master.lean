import Krb5Rs.MitEntry

/-!
# Stored keys

Keys are kept encrypted under a master key (`kdb/master.rs`). The encryption
types are a parameter, `Crypto`; a confounder is an argument of the encryption.
-/

namespace Krb5Rs

open Wire (Bytes)

structure EncryptionKey where
  keytype : Int32
  keyBytes : Bytes
deriving Repr, DecidableEq

/-- An encryption type: the arguments are key, usage, confounder and text. -/
structure EtypeProfile where
  encrypt : Bytes → UInt32 → Bytes → Bytes → Except String Bytes
  decrypt : Bytes → UInt32 → Bytes → Except String Bytes

/-- The registry of encryption types, each of which decrypts what it encrypted, up to padding. -/
class Crypto where
  findEtype : Int32 → Option EtypeProfile
  decrypt_encrypt : ∀ {etype profile}, findEtype etype = some profile →
    ∀ {key usage confounder plain cipher}, profile.encrypt key usage confounder plain = .ok cipher →
      ∃ pad, profile.decrypt key usage cipher = .ok (plain ++ pad)

/-- A toy registry: one type, whose ciphertext is the only byte of the key and the text. -/
@[reducible] def Crypto.toy : Crypto where
  findEtype etype := if etype = 18 then some
    { encrypt := fun key _ _ plain =>
        match key with
        | [b] => .ok (b :: plain)
        | _ => .error "bad key"
      decrypt := fun key _ cipher =>
        match cipher with
        | [] => .error "too short"
        | b :: plain => if key = [b] then .ok plain else .error "integrity" }
    else none
  decrypt_encrypt := by
    intro etype profile hp key usage confounder plain cipher hc
    split at hp
    · cases hp
      refine ⟨[], ?_⟩
      dsimp only at hc ⊢
      split at hc
      · cases hc
        simp
      · cases hc
    · cases hp

section
variable [Crypto] {blob : Bytes}

def masterProfile (master : EncryptionKey) : Except StoreError EtypeProfile :=
  match Crypto.findEtype master.keytype with
  | some profile => .ok profile
  | none => .error (.backend "unsupported master key enctype")

def encryptKey (confounder : Bytes) (master key : EncryptionKey) : Except StoreError Bytes := do
  let profile ← masterProfile master
  if key.keyBytes.length < 2 ^ 16 then
    match profile.encrypt master.keyBytes 0 confounder key.keyBytes with
    | .ok cipher => .ok (Codec.u16 (UInt16.ofNat key.keyBytes.length) ++ cipher)
    | .error e => .error (.backend e)
  else .error (.backend "key too long")

def decryptKey (master : EncryptionKey) (enctype : Int32) (blob : Bytes) : Except StoreError EncryptionKey := do
  let profile ← masterProfile master
  if blob.length < 2 then .error (.backend "stored key too short")
  else
    let want := Wire.ofLe (blob.take 2)
    match profile.decrypt master.keyBytes 0 (blob.drop 2) with
    | .error _ => .error (.backend "cannot decrypt stored key: wrong master key or corrupt database")
    | .ok plain =>
      if plain.length < want then .error (.backend "stored key length mismatch")
      else .ok ⟨enctype, plain.take want⟩

theorem decryptKey_keytype {master : EncryptionKey} {etype : Int32} {key : EncryptionKey}
    (h : decryptKey master etype blob = .ok key) : key.keytype = etype := by
  obtain ⟨profile, -, h⟩ := Wire.bind_eq_ok.mp h
  split at h
  · cases h
  dsimp only at h
  split at h
  · cases h
  split at h
  · cases h
  · cases h
    rfl

theorem decryptKey_encryptKey {confounder : Bytes} {master key : EncryptionKey}
    (h : encryptKey confounder master key = .ok blob) (enctype : Int32) :
    decryptKey master enctype blob = .ok ⟨enctype, key.keyBytes⟩ := by
  unfold encryptKey masterProfile at h
  unfold decryptKey masterProfile
  cases hp : Crypto.findEtype master.keytype with
  | none => simp [hp, bind, Except.bind] at h
  | some profile =>
    simp only [hp, bind, Except.bind] at h ⊢
    split at h
    case isFalse => cases h
    case isTrue hlen =>
      split at h
      case h_2 => cases h
      case h_1 cipher hc =>
        cases h
        obtain ⟨pad, hd⟩ := Crypto.decrypt_encrypt hp hc
        have hwant : (UInt16.ofNat key.keyBytes.length).toNat = key.keyBytes.length := by
          exact Nat.mod_eq_of_lt hlen
        have hshort : ¬ (Codec.u16 (UInt16.ofNat key.keyBytes.length) ++ cipher).length < 2 := by
          rw [List.length_append, Codec.u16_length]
          omega
        rw [if_neg hshort, List.take_left' (Codec.u16_length _), List.drop_left' (Codec.u16_length _), hd,
          Codec.ofLe_u16, hwant]
        simp

end

end Krb5Rs
