import Krb5Rs.Cbc
import Krb5Rs.Master

/-!
# Encryption with a chained state

The AES enctypes of `crypto/aes_cts.rs`, `crypto/dk.rs`, `crypto/aes_sha1.rs` and
`crypto/aes_sha2.rs`. AES, n-fold and the HMACs are parameters; a confounder is an
argument. A function that changes its cipher state returns the new one, also with an
error.
-/

namespace Krb5Rs

open Wire (Bytes)
open Cbc (BlockCipher xor)

inductive CryptoError
  | integrityFailure
  | inputTooShort
  | badKeySize
  | badParams
deriving Repr, DecidableEq

def CryptoError.text : CryptoError → String
  | .integrityFailure => "integrity check failed"
  | .inputTooShort => "input too short for decryption"
  | .badKeySize => "invalid key size"
  | .badParams => "invalid string-to-key parameters"

/-- `[u8; 16]`. -/
@[ext] structure Block where
  bytes : Bytes
  len : bytes.length = 16
deriving DecidableEq

namespace Enctypes

def aesBlock : Nat := 16

def blockAt (data : Bytes) (offset : Nat) : Block where
  bytes := (data.drop offset ++ List.replicate aesBlock 0).take aesBlock
  len := by
    rw [List.length_take, List.length_append, List.length_replicate, aesBlock]
    omega

def zeroBlock : Block := ⟨List.replicate aesBlock 0, rfl⟩

end Enctypes

class Primitives where
  aes : Bytes → BlockCipher 16
  nfold : Bytes → Bytes
  nfold_length : ∀ c, (nfold c).length = 16
  hmacSha1 : Bytes → Bytes → Bytes
  hmacSha1_length : ∀ k d, (hmacSha1 k d).length = 20
  hmacSha256 : Bytes → Bytes → Bytes
  hmacSha256_length : ∀ k d, (hmacSha256 k d).length = 32
  hmacSha384 : Bytes → Bytes → Bytes
  hmacSha384_length : ∀ k d, (hmacSha384 k d).length = 48

namespace Enctypes

section
variable [Primitives]

/-! ## Blocks -/

def knownKey (key : Bytes) : Bool := key.length = 16 ∨ key.length = 32

def aesEcbEncryptBlock (key block : Bytes) : Except CryptoError Bytes :=
  if block.length ≠ aesBlock then .error .inputTooShort
  else if knownKey key then .ok ((Primitives.aes key).enc block)
  else .error .badKeySize

def aesEcbDecryptBlock (key block : Bytes) : Except CryptoError Bytes :=
  if block.length ≠ aesBlock then .error .inputTooShort
  else if knownKey key then .ok ((Primitives.aes key).dec block)
  else .error .badKeySize

def chunks (data : Bytes) : List Bytes :=
  (List.range (data.length / aesBlock)).map fun i => (data.drop (i * aesBlock)).take aesBlock

def cbcEncryptLoop (key : Bytes) : Bytes → List Bytes → Except CryptoError Bytes
  | _, [] => .ok []
  | prev, chunk :: rest => do
    let encrypted ← aesEcbEncryptBlock key (xor chunk prev)
    let result ← cbcEncryptLoop key encrypted rest
    .ok (encrypted ++ result)

def cbcDecryptLoop (key : Bytes) : Bytes → List Bytes → Except CryptoError Bytes
  | _, [] => .ok []
  | prev, chunk :: rest => do
    let decrypted ← aesEcbDecryptBlock key chunk
    let result ← cbcDecryptLoop key chunk rest
    .ok (xor decrypted prev ++ result)

def aesCbcEncrypt (key iv data : Bytes) : Except CryptoError Bytes :=
  if data.length % aesBlock ≠ 0 then .error .inputTooShort else cbcEncryptLoop key iv (chunks data)

def aesCbcDecrypt (key iv data : Bytes) : Except CryptoError Bytes :=
  if data.length % aesBlock ≠ 0 then .error .inputTooShort else cbcDecryptLoop key iv (chunks data)

/-! ## Ciphertext stealing -/

/-- The last two blocks exchanged, the one before the last cut to the length of the data. -/
def swapTail (out : Bytes) (len : Nat) : Bytes :=
  let nblocks := out.length / aesBlock
  let head := if 2 < nblocks then out.take ((nblocks - 2) * aesBlock) else []
  let secondLast := (out.drop ((nblocks - 2) * aesBlock)).take aesBlock
  let last := (out.drop ((nblocks - 1) * aesBlock)).take aesBlock
  head ++ last ++ secondLast.take (len - (nblocks - 1) * aesBlock)

/-- A single block takes a zero IV and leaves `iv` alone. -/
def aesCtsEncryptIv (key : Bytes) (iv : Block) (plaintext : Bytes) : Except CryptoError Bytes × Block :=
  if plaintext.length < aesBlock then (.error .inputTooShort, iv)
  else if plaintext.length = aesBlock then (aesCbcEncrypt key zeroBlock.bytes plaintext, iv)
  else
    let padded := plaintext ++ List.replicate ((aesBlock - plaintext.length % aesBlock) % aesBlock) 0
    match aesCbcEncrypt key iv.bytes padded with
    | .error e => (.error e, iv)
    | .ok out => (.ok (swapTail out plaintext.length), blockAt out ((out.length / aesBlock - 1) * aesBlock))

def decryptPrefix (key : Bytes) (iv : Block) (ciphertext : Bytes) (nblocks : Nat) : Except CryptoError (Bytes × Bytes) :=
  if 2 < nblocks then do
    let stop := (nblocks - 2) * aesBlock
    let plain ← aesCbcDecrypt key iv.bytes (ciphertext.take stop)
    .ok (plain, (ciphertext.drop (stop - aesBlock)).take aesBlock)
  else .ok ([], iv.bytes)

/-- The last two blocks: `cn1` is whole, of the one before it only `partial` came. -/
def decryptTail (key prevIv cn1 cn2 : Bytes) : Except CryptoError Bytes := do
  let ecbDec ← aesEcbDecryptBlock key cn1
  let finalPlain := xor (ecbDec.take cn2.length) cn2
  let penDec ← aesEcbDecryptBlock key (cn2 ++ ecbDec.drop cn2.length)
  .ok (xor penDec prevIv ++ finalPlain)

def lastBlockOffset (len : Nat) : Nat := ((len + 15) / aesBlock - 2) * aesBlock

def aesCtsDecryptIv (key : Bytes) (iv : Block) (ciphertext : Bytes) : Except CryptoError Bytes × Block :=
  if ciphertext.length < aesBlock then (.error .inputTooShort, iv)
  else if ciphertext.length = aesBlock then (aesCbcDecrypt key zeroBlock.bytes ciphertext, iv)
  else
    let nblocks := (ciphertext.length + 15) / aesBlock
    match decryptPrefix key iv ciphertext nblocks with
    | .error e => (.error e, iv)
    | .ok (plain, prevIv) =>
      let cn1 := blockAt ciphertext (lastBlockOffset ciphertext.length)
      match decryptTail key prevIv cn1.bytes (ciphertext.drop ((nblocks - 1) * aesBlock)) with
      | .error e => (.error e, cn1)
      | .ok tail => (.ok (plain ++ tail), cn1)

/-! ## Key derivation -/

def dkLoop (key : Bytes) : Nat → Bytes → Except CryptoError Bytes
  | 0, _ => .ok []
  | n + 1, block => do
    let block ← aesEcbEncryptBlock key block
    let rest ← dkLoop key n block
    .ok (block ++ rest)

def dk (baseKey constant : Bytes) (keySize : Nat) : Except CryptoError Bytes :=
  if constant = [] ∨ keySize = 0 then .error .badParams
  else do
    let result ← dkLoop baseKey ((keySize + 15) / aesBlock) (Primitives.nfold constant)
    .ok (result.take keySize)

def derivationConstant (usage : Int32) (purpose : UInt8) : Except CryptoError Bytes :=
  if usage < 0 then .error .badParams else .ok (Wire.be 4 usage.toUInt32.toNat ++ [purpose])

def deriveKey (baseKey : Bytes) (usage : Int32) (derivationByte : UInt8) : Except CryptoError Bytes := do
  let constant ← derivationConstant usage derivationByte
  dk baseKey constant baseKey.length

/-! ## HMAC-SHA1 -/

def hmacTrailer : Nat := 12

def hmacSha196 (key data : Bytes) : Bytes := (Primitives.hmacSha1 key data).take 12

def validateExactKeyLen (key : Bytes) (expected : Nat) : Except CryptoError Unit :=
  if key.length = expected then .ok () else .error .badKeySize

def aesKeys (key : Bytes) (usage : Int32) (expected : Nat) : Except CryptoError (Bytes × Bytes) := do
  let _ ← validateExactKeyLen key expected
  let ke ← deriveKey key usage 0xaa
  let ki ← deriveKey key usage 0x55
  .ok (ke, ki)

def aesEncrypt (key : Bytes) (usage : Int32) (confounder : Block) (plaintext : Bytes) (expected : Nat) (state : Block) :
    Except CryptoError Bytes × Block :=
  match aesKeys key usage expected with
  | .error e => (.error e, state)
  | .ok (ke, ki) =>
    let data := confounder.bytes ++ plaintext
    match aesCtsEncryptIv ke state data with
    | (.error e, state) => (.error e, state)
    | (.ok ct, state) => (.ok (ct ++ hmacSha196 ki data), state)

def checkTrailer (ki plain received : Bytes) : Except CryptoError Bytes :=
  if hmacSha196 ki plain = received then .ok (plain.drop aesBlock) else .error .integrityFailure

def aesDecrypt (key : Bytes) (usage : Int32) (ciphertext : Bytes) (expected : Nat) (state : Block) :
    Except CryptoError Bytes × Block :=
  match aesKeys key usage expected with
  | .error e => (.error e, state)
  | .ok (ke, ki) =>
    if ciphertext.length < hmacTrailer + aesBlock then (.error .inputTooShort, state)
    else
      let ctLen := ciphertext.length - hmacTrailer
      match aesCtsDecryptIv ke state (ciphertext.take ctLen) with
      | (.error e, state) => (.error e, state)
      | (.ok plain, state) => (checkTrailer ki plain (ciphertext.drop ctLen), state)

/-! ## HMAC-SHA2 -/

inductive Sha2Hash
  | sha256
  | sha384
deriving Repr, DecidableEq

def Sha2Hash.hmac : Sha2Hash → Bytes → Bytes → Bytes
  | .sha256 => Primitives.hmacSha256
  | .sha384 => Primitives.hmacSha384

def Sha2Hash.hashLen : Sha2Hash → Nat
  | .sha256 => 32
  | .sha384 => 48

def kdfHmacSha2 (h : Sha2Hash) (key label context : Bytes) (outBits : Nat) : Except CryptoError Bytes :=
  if key = [] ∨ outBits % 8 ≠ 0 ∨ outBits = 0 then .error .badParams
  else
    let data := Wire.be 4 1 ++ label ++ [0] ++ context ++ Wire.be 4 outBits
    .ok ((h.hmac key data).take (outBits / 8))

def sha2Derive (h : Sha2Hash) (key : Bytes) (usage : Int32) (purpose : UInt8) (keyLen outBytes : Nat) :
    Except CryptoError Bytes :=
  if key.length ≠ keyLen then .error .badKeySize
  else do
    let label ← derivationConstant usage purpose
    kdfHmacSha2 h key label [] (outBytes * 8)

def sha2Ke (h : Sha2Hash) (key : Bytes) (usage : Int32) (keyLen : Nat) : Except CryptoError Bytes :=
  sha2Derive h key usage 0xaa keyLen keyLen

def sha2Ki (h : Sha2Hash) (key : Bytes) (usage : Int32) (keyLen : Nat) : Except CryptoError Bytes :=
  sha2Derive h key usage 0x55 keyLen (h.hashLen / 2)

def sha2Tag (h : Sha2Hash) (ki : Bytes) (state : Block) (ct : Bytes) : Bytes :=
  (h.hmac ki (state.bytes ++ ct)).take (h.hashLen / 2)

def sha2Keys (h : Sha2Hash) (key : Bytes) (usage : Int32) (keyLen : Nat) : Except CryptoError (Bytes × Bytes) := do
  let ke ← sha2Ke h key usage keyLen
  let ki ← sha2Ki h key usage keyLen
  .ok (ke, ki)

def sha2Encrypt (h : Sha2Hash) (key : Bytes) (usage : Int32) (confounder : Block) (plaintext : Bytes) (keyLen : Nat)
    (state : Block) : Except CryptoError Bytes × Block :=
  match sha2Keys h key usage keyLen with
  | .error e => (.error e, state)
  | .ok (ke, ki) =>
    match aesCtsEncryptIv ke state (confounder.bytes ++ plaintext) with
    | (.error e, next) => (.error e, next)
    | (.ok ct, next) => (.ok (ct ++ sha2Tag h ki state ct), next)

def sha2Verify (h : Sha2Hash) (key : Bytes) (usage : Int32) (ciphertext : Bytes) (keyLen : Nat) (state : Block) :
    Except CryptoError Bytes :=
  if ciphertext.length < h.hashLen / 2 + aesBlock then .error .inputTooShort
  else do
    let ctLen := ciphertext.length - h.hashLen / 2
    let ki ← sha2Ki h key usage keyLen
    if sha2Tag h ki state (ciphertext.take ctLen) = ciphertext.drop ctLen then .ok (ciphertext.take ctLen)
    else .error .integrityFailure

def sha2Decrypt (h : Sha2Hash) (key : Bytes) (usage : Int32) (ciphertext : Bytes) (keyLen : Nat) (state : Block) :
    Except CryptoError Bytes × Block :=
  match sha2Verify h key usage ciphertext keyLen state with
  | .error e => (.error e, state)
  | .ok ct =>
    match sha2Ke h key usage keyLen with
    | .error e => (.error e, state)
    | .ok ke =>
      match aesCtsDecryptIv ke state ct with
      | (.error e, state) => (.error e, state)
      | (.ok plain, state) => (.ok (plain.drop aesBlock), state)

end

/-! ## The registry -/

inductive Etype
  | aes128CtsHmacSha196
  | aes256CtsHmacSha196
  | aes128CtsHmacSha256128
  | aes256CtsHmacSha384192
deriving Repr, DecidableEq

def findEtype (etype : Int32) : Option Etype :=
  if etype = 17 then some .aes128CtsHmacSha196
  else if etype = 18 then some .aes256CtsHmacSha196
  else if etype = 19 then some .aes128CtsHmacSha256128
  else if etype = 20 then some .aes256CtsHmacSha384192
  else none

def Etype.keyLength : Etype → Nat
  | .aes128CtsHmacSha196 | .aes128CtsHmacSha256128 => 16
  | .aes256CtsHmacSha196 | .aes256CtsHmacSha384192 => 32

def Etype.checksumSize : Etype → Nat
  | .aes128CtsHmacSha196 | .aes256CtsHmacSha196 => 12
  | .aes128CtsHmacSha256128 => 16
  | .aes256CtsHmacSha384192 => 24

section
variable [Primitives]

def Etype.encryptWithState (e : Etype) (key : Bytes) (usage : Int32) (confounder : Block) (plaintext : Bytes)
    (state : Block) : Except CryptoError Bytes × Block :=
  match e with
  | .aes128CtsHmacSha196 | .aes256CtsHmacSha196 => aesEncrypt key usage confounder plaintext e.keyLength state
  | .aes128CtsHmacSha256128 => sha2Encrypt .sha256 key usage confounder plaintext e.keyLength state
  | .aes256CtsHmacSha384192 => sha2Encrypt .sha384 key usage confounder plaintext e.keyLength state

def Etype.decryptWithState (e : Etype) (key : Bytes) (usage : Int32) (ciphertext : Bytes) (state : Block) :
    Except CryptoError Bytes × Block :=
  match e with
  | .aes128CtsHmacSha196 | .aes256CtsHmacSha196 => aesDecrypt key usage ciphertext e.keyLength state
  | .aes128CtsHmacSha256128 => sha2Decrypt .sha256 key usage ciphertext e.keyLength state
  | .aes256CtsHmacSha384192 => sha2Decrypt .sha384 key usage ciphertext e.keyLength state

def Etype.encrypt (e : Etype) (key : Bytes) (usage : Int32) (confounder : Block) (plaintext : Bytes) :
    Except CryptoError Bytes := (e.encryptWithState key usage confounder plaintext zeroBlock).1

def Etype.decrypt (e : Etype) (key : Bytes) (usage : Int32) (ciphertext : Bytes) : Except CryptoError Bytes :=
  (e.decryptWithState key usage ciphertext zeroBlock).1

end

end Enctypes

end Krb5Rs
