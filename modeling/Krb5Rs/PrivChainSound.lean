import Krb5Rs.PrivChain
import Krb5Rs.PrivSafeSound

/-!
# Forged messages in a chained session

A message that does not decrypt leaves the receiver's state as it was when its
enctype checks before it decrypts. The enctype is the forger's choice, so what
keeps a session in step is that no refused message names an HMAC-SHA1 enctype that
fits the key.
-/

namespace Krb5Rs

namespace PrivSafe

open Wire (Bytes bind_eq_ok)
open Enctypes (Etype findEtype zeroBlock)
open Ccache (HostAddress)

/-! ## The checks of an opened message -/

variable {κ : Type} (ctx : AuthContext κ)

theorem checkSeqnum_crypto (w : UInt32) : (ctx.checkSeqnum w).2.crypto = ctx.crypto := by
  unfold AuthContext.checkSeqnum
  dsimp only
  repeat' split
  all_goals rfl

theorem inSequence_crypto (m : Opened) : (ctx.inSequence m).2.crypto = ctx.crypto := by
  unfold AuthContext.inSequence
  split
  case isTrue =>
    dsimp only
    split
    · exact checkSeqnum_crypto ctx m.wire
    · exact checkSeqnum_crypto ctx m.wire
  case isFalse => rfl

theorem rdOpened_crypto (now : Int) (m : Opened) : (ctx.rdOpened now m).2.crypto = ctx.crypto := by
  obtain ⟨rcache, hkeeps⟩ := checkReplay_keeps ctx now m.timestamp m.tag
  unfold AuthContext.rdOpened
  cases hreplay : ctx.checkReplay now m.timestamp m.tag with
  | mk r checked =>
    rw [hreplay] at hkeeps
    replace hkeeps : checked = { ctx with rcache } := hkeeps
    rw [hkeeps]
    cases r with
    | error e => rfl
    | ok => exact inSequence_crypto _ m

/-! ## Making a message -/

theorem require_eq_ok {α : Type} {e : MkError} {x : Option α} {a : α} : require e x = .ok a ↔ x = some a := by
  cases x <;> simp [require]

variable {e : Etype} {input : Input} {der : Bytes} {key : EncryptionKey} {confounder : Block} {s s' : Sender}

namespace Sender

theorem remember_keeps {tag : Bytes} (h : s.remember tag = .ok s') :
    s'.cstate = s.cstate ∧ s'.sendKey = s.sendKey := by
  unfold remember at h
  split at h
  case isTrue =>
    cases h
    exact ⟨rfl, rfl⟩
  case isFalse =>
    split at h
    case isTrue => cases h
    case isFalse =>
      cases h
      exact ⟨rfl, rfl⟩

theorem advance_keeps (s : Sender) : s.advance.cstate = s.cstate ∧ s.advance.sendKey = s.sendKey := by
  unfold advance
  split <;> exact ⟨rfl, rfl⟩

theorem prepare_ok [PrivDer] (h : s.prepare input = .ok (key, e, der)) :
    s.sendKey = some key ∧ findEtype key.keytype = some e ∧ ∃ a, PrivDer.encodePart (s.part input a) = some der := by
  obtain ⟨a, -, h⟩ := bind_eq_ok.mp h
  obtain ⟨key, hkey, h⟩ := bind_eq_ok.mp h
  obtain ⟨e, he, h⟩ := bind_eq_ok.mp h
  obtain ⟨der, hder, h⟩ := bind_eq_ok.mp h
  cases h
  exact ⟨require_eq_ok.mp hkey, require_eq_ok.mp he, a, require_eq_ok.mp hder⟩

theorem closePart_keeps [Primitives] {key : Bytes}
    {r : Except CryptoError Bytes} (h : s.closePart e key confounder der = (r, s')) : s'.sendKey = s.sendKey := by
  unfold closePart at h
  split at h <;> cases h <;> rfl

end Sender

variable {msg cipher : Bytes} {κ : PrivKeys}

theorem PrivKeys.sealed_message [PrivDer] {keytype : Int32}
    (hencode : PrivDer.encodePriv ⟨5, 21, keytype, cipher⟩ = some msg) (hkey : κ.recvKey = some key)
    (he : findEtype keytype = some e) : κ.sealed msg = some (e, key.keyBytes, cipher) := by
  obtain ⟨hdecode, htag⟩ := PrivDer.decode_encodePriv hencode
  simp [PrivKeys.sealed, htag, hdecode, hkey, he, guard]

theorem PrivKeys.openCipher_closePart [Primitives] {closed : Sender} (hstate : κ.cstate = s.cstate) {key : Bytes}
    (h : s.closePart e key confounder der = (.ok cipher, closed)) :
    κ.openCipher e key cipher = (.ok der, { κ with cstate := closed.cstate }) := by
  unfold Sender.closePart at h
  unfold PrivKeys.openCipher
  rw [hstate]
  cases hs : s.cstate with
  | some state =>
    rw [hs] at h
    dsimp only at h ⊢
    cases henc : e.encryptWithState key krbPrivEncpart confounder der state with
    | mk r next =>
      rw [henc] at h
      cases h
      rw [Enctypes.decrypt_encrypt_with_state henc]
  | none =>
    rw [hs] at h
    obtain ⟨hr, rfl⟩ := Prod.mk.inj h
    cases henc : e.encryptWithState key krbPrivEncpart confounder der zeroBlock with
    | mk r next =>
      rw [Etype.encrypt, henc] at hr
      replace hr : r = .ok cipher := hr
      rw [hr] at henc
      rw [Etype.decrypt, Enctypes.decrypt_encrypt_with_state henc, ← hstate]

section
variable [Primitives] [PrivDer] {msgs : List Bytes}

namespace Sender

theorem mkPriv_ok (h : s.mkPriv input = (.ok msg, s')) :
    ∃ key e der cipher closed a, s.sendKey = some key ∧ findEtype key.keytype = some e ∧
      PrivDer.encodePart (s.part input a) = some der ∧
      s.closePart e key.keyBytes input.confounder der = (.ok cipher, closed) ∧
      PrivDer.encodePriv ⟨5, 21, key.keytype, cipher⟩ = some msg ∧
      s'.cstate = closed.cstate ∧ s'.sendKey = s.sendKey := by
  unfold mkPriv at h
  cases hprepare : s.prepare input with
  | error err =>
    rw [hprepare] at h
    cases h
  | ok r =>
    obtain ⟨key, e, der⟩ := r
    obtain ⟨hkey, he, a, hder⟩ := prepare_ok hprepare
    rw [hprepare] at h
    dsimp only at h
    cases hclose : s.closePart e key.keyBytes input.confounder der with
    | mk r closed =>
      rw [hclose] at h
      cases r with
      | error err => cases h
      | ok cipher =>
        replace h : closed.finish e key.keytype cipher = (.ok msg, s') := h
        unfold finish at h
        cases hencode : PrivDer.encodePriv ⟨5, 21, key.keytype, cipher⟩ with
        | none =>
          rw [hencode] at h
          cases h
        | some out =>
          rw [hencode] at h
          cases hremember : closed.remember (cipher.drop (cipher.length - e.checksumSize)) with
          | error err =>
            rw [hremember] at h
            cases h
          | ok kept =>
            rw [hremember] at h
            cases h
            obtain ⟨hstate, hsend⟩ := remember_keeps hremember
            obtain ⟨hstate', hsend'⟩ := kept.advance_keeps
            exact ⟨key, e, der, cipher, closed, a, hkey, he, hder, hclose, hencode, hstate'.trans hstate,
              (hsend'.trans hsend).trans (closePart_keeps hclose)⟩

variable {inputs : List Input}

theorem mkPrivs_cons (h : s.mkPrivs inputs = some (msg :: msgs, s')) :
    ∃ input rest s₁, inputs = input :: rest ∧ s.mkPriv input = (.ok msg, s₁) ∧ s₁.mkPrivs rest = some (msgs, s') := by
  cases inputs with
  | nil => cases h
  | cons input rest =>
    rw [mkPrivs] at h
    cases hmk : s.mkPriv input with
    | mk r s₁ =>
      rw [hmk] at h
      cases r with
      | error e => cases h
      | ok first =>
        obtain ⟨⟨more, last⟩, hrest, hpair⟩ := Option.map_eq_some_iff.mp h
        cases hpair
        exact ⟨input, rest, s₁, rfl, hmk, hrest⟩

theorem mkPrivs_nil (h : s.mkPrivs inputs = some ([], s')) : inputs = [] := by
  cases inputs with
  | nil => rfl
  | cons input rest =>
    rw [mkPrivs] at h
    cases hmk : s.mkPriv input with
    | mk r s₁ =>
      rw [hmk] at h
      cases r with
      | error e => cases h
      | ok first =>
        obtain ⟨⟨more, last⟩, -, hpair⟩ := Option.map_eq_some_iff.mp h
        cases hpair

end Sender

/-! ## Opening a message -/

structure Paired (s : Sender) (κ : PrivKeys) : Prop where
  key : ∀ key, s.sendKey = some key → ∃ key', κ.recvKey = some key' ∧ key'.keyBytes = key.keyBytes
  cstate : κ.cstate = s.cstate

theorem Paired.decryptPriv (hpaired : Paired s κ) (h : s.mkPriv input = (.ok msg, s')) :
    κ.clear msg = some input.userData ∧ Paired s' (κ.decryptPriv msg).2 := by
  obtain ⟨key, e, der, cipher, closed, a, hkey, he, hder, hclose, hencode, hstate, hsend⟩ := Sender.mkPriv_ok h
  obtain ⟨key', hrecv, hbytes⟩ := hpaired.key key hkey
  have hsealed := PrivKeys.sealed_message hencode hrecv he
  have hopen := PrivKeys.openCipher_closePart hpaired.cstate hclose
  have hdecrypt : κ.decryptPriv msg = (some (e, cipher, der), { κ with cstate := closed.cstate }) := by
    rw [PrivKeys.decryptPriv, hsealed]
    dsimp only
    rw [hbytes, hopen]
  refine ⟨?_, ?_, ?_⟩
  · rw [PrivKeys.clear, hdecrypt]
    show (PrivDer.decodePart der >>= _) = _
    rw [PrivDer.decode_encodePart hder]
    rfl
  · rw [hdecrypt]
    intro key₁ hkey₁
    rw [hsend] at hkey₁
    exact hpaired.key key₁ hkey₁
  · rw [hdecrypt, hstate]

/-! ## Forged messages -/

def PrivKeys.Spares (κ : PrivKeys) (msg : Bytes) : Prop :=
  ∀ e key cipher state, κ.sealed msg = some (e, key, cipher) → κ.cstate = some state →
    e.Spared key krbPrivEncpart cipher state

theorem decryptPriv_spared (hrefused : (κ.decryptPriv msg).1 = none)
    (hspares : κ.Spares msg) : (κ.decryptPriv msg).2 = κ := by
  unfold PrivKeys.decryptPriv at hrefused ⊢
  cases hsealed : κ.sealed msg with
  | none => rfl
  | some r =>
    obtain ⟨e, key, cipher⟩ := r
    rw [hsealed] at hrefused
    unfold PrivKeys.openCipher at hrefused ⊢
    cases hs : κ.cstate with
    | none =>
      dsimp only
      cases e.decrypt key krbPrivEncpart cipher <;> rfl
    | some state =>
      rw [hs] at hrefused
      dsimp only at hrefused ⊢
      cases hdec : e.decryptWithState key krbPrivEncpart cipher state with
      | mk r next =>
        rw [hdec] at hrefused
        cases r with
        | ok plain => cases hrefused
        | error err =>
          have hkept := (Enctypes.state_kept_iff (congrArg Prod.fst hdec)).mpr (hspares e key cipher state hsealed hs)
          rw [hdec] at hkept
          rw [hkept, ← hs]

variable [SafeOpener]

theorem rd_crypto (ctx : AuthContext PrivKeys) (msg : Bytes) (now : Int) :
    (ctx.rd ⟨.priv, msg, now⟩).2.crypto = (ctx.crypto.decryptPriv msg).2 := by
  have hopen : (ctx.crypto.openPriv msg).2 = (ctx.crypto.decryptPriv msg).2 := by
    unfold PrivKeys.openPriv
    split
    case h_1 heq => rw [heq]
    case h_2 heq => rw [heq]
  have hmessage : Opener.openMessage Kind.priv ctx.crypto msg = ctx.crypto.openPriv msg := rfl
  rw [← hopen]
  unfold AuthContext.rd
  rw [hmessage]
  cases ctx.crypto.openPriv msg with
  | mk r κ =>
    cases r with
    | error e => rfl
    | ok m => exact rdOpened_crypto _ now m

/-- The peer's messages in order, among others that do not decrypt and spare the state. -/
inductive Delivery : AuthContext PrivKeys → List Bytes → List (Bytes × Int) → Prop
  | done (ctx : AuthContext PrivKeys) : Delivery ctx [] []
  | genuine {ctx : AuthContext PrivKeys} {msg : Bytes} {msgs : List Bytes} {calls : List (Bytes × Int)} (now : Int) :
      Delivery (ctx.rd ⟨.priv, msg, now⟩).2 msgs calls → Delivery ctx (msg :: msgs) ((msg, now) :: calls)
  | forged {ctx : AuthContext PrivKeys} {msg : Bytes} {msgs : List Bytes} {calls : List (Bytes × Int)} (now : Int) :
      (ctx.crypto.decryptPriv msg).1 = none → ctx.crypto.Spares msg →
        Delivery (ctx.rd ⟨.priv, msg, now⟩).2 msgs calls → Delivery ctx msgs ((msg, now) :: calls)

theorem clears_delivery {ctx : AuthContext PrivKeys} {calls : List (Bytes × Int)} (h : Delivery ctx msgs calls) :
    ∀ {s s' : Sender} {inputs : List Input}, Paired s ctx.crypto → s.mkPrivs inputs = some (msgs, s') →
      ctx.clears calls = inputs.map Input.userData := by
  induction h with
  | done ctx =>
    intro s s' inputs _ hmade
    rw [Sender.mkPrivs_nil hmade]
    rfl
  | genuine now _ ih =>
    intro s s' inputs hpaired hmade
    obtain ⟨input, rest, s₁, rfl, hmk, hrest⟩ := Sender.mkPrivs_cons hmade
    obtain ⟨hclear, hpaired'⟩ := hpaired.decryptPriv hmk
    rw [← rd_crypto] at hpaired'
    rw [AuthContext.clears, hclear, ih hpaired' hrest]
    rfl
  | @forged ctx msg msgs calls now hrefused hspares _ ih =>
    intro s s' inputs hpaired hmade
    have hclear : ctx.crypto.clear msg = none := by
      rw [PrivKeys.clear, hrefused]
      rfl
    have hkept : (ctx.rd ⟨.priv, msg, now⟩).2.crypto = ctx.crypto := by
      rw [rd_crypto, decryptPriv_spared hrefused hspares]
    rw [AuthContext.clears, hclear, ih (hkept ▸ hpaired) hmade]
    rfl

/-- A refused message leaves the state alone exactly when it does not reach it or sets it to what it was, and where
every refused message is such, the peer's messages decrypt to what was sent. -/
theorem forgeries_spare_session (e : Etype) (key : Bytes) (usage : Int32) (ct : Bytes) (state : Block)
    (err : CryptoError) (hrefused : (e.decryptWithState key usage ct state).1 = .error err)
    (s s' : Sender) (inputs : List Input) (msgs : List Bytes) (hmade : s.mkPrivs inputs = some (msgs, s'))
    (ctx : AuthContext PrivKeys) (hpaired : Paired s ctx.crypto) (calls : List (Bytes × Int))
    (hcalls : Delivery ctx msgs calls) :
    ((e.decryptWithState key usage ct state).2 = state ↔ e.Spared key usage ct state) ∧
      ctx.clears calls = inputs.map Input.userData :=
  ⟨Enctypes.state_kept_iff hrefused, clears_delivery hcalls hpaired hmade⟩

end

/-! ## Sessions broken by a forged message -/

section

def firstBytes (n : Nat) (b : Bytes) : Bytes := (b ++ List.replicate n 0).take n

theorem firstBytes_length (n : Nat) (b : Bytes) : (firstBytes n b).length = n := by
  simp [firstBytes]

@[reducible] local instance plainPrimitives : Primitives where
  aes _ := ⟨id, id, fun _ h => h, fun _ h => h, fun _ _ => rfl⟩
  nfold := firstBytes 16
  nfold_length := firstBytes_length 16
  hmacSha1 _ := firstBytes 20
  hmacSha1_length _ := firstBytes_length 20
  hmacSha256 _ := firstBytes 32
  hmacSha256_length _ := firstBytes_length 32
  hmacSha384 _ := firstBytes 48
  hmacSha384_length _ := firstBytes_length 48

def somewhere : HostAddress := ⟨2, []⟩

@[reducible] local instance plainDer : PrivDer where
  encodePart part := if part = ⟨part.userData, none, none, none, somewhere, none⟩ then some part.userData else none
  decodePart b := some ⟨b, none, none, none, somewhere, none⟩
  decode_encodePart := by
    intro part b h
    split at h
    case isTrue hplain =>
      cases h
      exact congrArg some hplain.symm
    case isFalse => cases h
  encodePriv m :=
    if m = ⟨5, 21, 17, m.cipher⟩ then some (0x75 :: 17 :: m.cipher)
    else if m = ⟨5, 21, 19, m.cipher⟩ then some (0x75 :: 19 :: m.cipher)
    else none
  decodePriv b :=
    match b with
    | _ :: 17 :: cipher => some ⟨5, 21, 17, cipher⟩
    | _ :: 19 :: cipher => some ⟨5, 21, 19, cipher⟩
    | _ => none
  decode_encodePriv := by
    intro m b h
    split at h
    case isTrue hm =>
      cases h
      exact ⟨congrArg some hm.symm, rfl⟩
    case isFalse =>
      split at h
      case isTrue hm =>
        cases h
        exact ⟨congrArg some hm.symm, rfl⟩
      case isFalse => cases h

@[reducible] local instance noSafe : SafeOpener := ⟨fun _ _ => .error .unreadable⟩

def chainKey (keytype : Int32) : EncryptionKey := ⟨keytype, List.replicate 16 1⟩

def chainSender (keytype : Int32) : Sender :=
  ⟨false, false, false, false, some somewhere, none, 0, some (chainKey keytype), none, some zeroBlock, []⟩

def chainReceiver (keytype : Int32) : AuthContext PrivKeys :=
  ⟨false, false, 0, 0, 0, [], false, false, ⟨some (chainKey keytype), none, some zeroBlock, none, none⟩⟩

def chainInput : Input := ⟨(0, 0), Enctypes.blockAt (List.replicate 16 4) 0, [100, 98]⟩

def chainMessage (keytype : Int32) : Bytes := ((chainSender keytype).mkPriv chainInput).1.toOption.getD []

def forgery : Bytes := 0x75 :: 17 :: (List.replicate 32 7 ++ List.replicate 12 9)

/-- One forged message, and the peer's next message no longer decrypts: in a session with an HMAC-SHA1 key, and in one
with an HMAC-SHA2 key, for which the forger names the other enctype. -/
theorem forgery_breaks_session :
    let refused := Etype.aes128CtsHmacSha196.decryptWithState (chainKey 17).keyBytes krbPrivEncpart (forgery.drop 2)
      zeroBlock
    refused.1 = .error .integrityFailure ∧ refused.2 ≠ zeroBlock ∧
      (chainReceiver 17).clears [(chainMessage 17, 0)] = [[100, 98]] ∧
      (chainReceiver 17).clears [(forgery, 0), (chainMessage 17, 0)] = [] ∧
      (chainReceiver 19).clears [(chainMessage 19, 0)] = [[100, 98]] ∧
      (chainReceiver 19).clears [(forgery, 0), (chainMessage 19, 0)] = [] := by
  decide +kernel

def sparingForgery : Bytes := 0x75 :: 19 :: (List.replicate 32 7 ++ List.replicate 16 9)

theorem forgeries_spare_session_sha2 :
    (chainReceiver 19).clears [(sparingForgery, 0), (chainMessage 19, 0)] = [[100, 98]] := by
  have hspares : (chainReceiver 19).crypto.Spares sparingForgery := by
    intro e key cipher state hsealed _
    have hnames : (chainReceiver 19).crypto.sealed sparingForgery =
        some (.aes128CtsHmacSha256128, (chainKey 19).keyBytes, List.replicate 32 7 ++ List.replicate 16 9) := by
      decide +kernel
    cases hsealed
    trivial
  have hmade : (chainSender 19).mkPrivs [chainInput] =
      some ([chainMessage 19], ((chainSender 19).mkPriv chainInput).2) := rfl
  exact (forgeries_spare_session .aes128CtsHmacSha256128 [] krbPrivEncpart [] zeroBlock .inputTooShort rfl
    (chainSender 19) _ [chainInput] [chainMessage 19] hmade (chainReceiver 19)
    ⟨fun key hkey => ⟨key, hkey, rfl⟩, rfl⟩ [(sparingForgery, 0), (chainMessage 19, 0)]
    (.forged 0 (by decide +kernel) hspares (.genuine 0 (.done _)))).2

end

end PrivSafe

end Krb5Rs
