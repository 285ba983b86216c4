import Krb5Rs.Gss
import Krb5Rs.SeqStateSound

/-!
# Unwrapping inverts wrapping

A token is its header and its body. The receiver finds the sender's key and usage
from the flags and turns the body back, so it opens what was sealed; and as long as
tokens are taken in the order they were sent, the sequence number is the one it
expects.
-/

namespace Krb5Rs

open Wire (Bytes be ofBe bind_eq_ok)

namespace Gss

theorem crypt_eq_ok {α : Type} {x : Except String α} {c : α} (h : crypt x = .ok c) : x = .ok c := by
  cases x with
  | ok d => exact congrArg _ (Except.ok.inj h)
  | error e => cases h

variable {seq next stop : UInt64} {overflowChecks conf : Bool} {token confounder : Bytes}

namespace Krb5Context

/-! ## Headers -/

@[simp] theorem header_length (flags : UInt8) (ec rrc : Nat) (seq : UInt64) :
    (header flags ec rrc seq).length = 16 := by
  simp [header]

section
variable (flags : UInt8) (ec rrc : Nat) (seq : UInt64) (body : Bytes)

@[simp] theorem drop_header : (header flags ec rrc seq ++ body).drop 16 = body :=
  List.drop_left' (header_length ..)

@[simp] theorem slice_header : slice (header flags ec rrc seq ++ body) 0 16 = header flags ec rrc seq :=
  List.take_left' (header_length ..)

@[simp] theorem flagsOf_header : flagsOf (header flags ec rrc seq ++ body) = flags := rfl

@[simp] theorem filler_header : (header flags ec rrc seq ++ body).getD 3 0 = 0xff := rfl

@[simp] theorem kind_header : slice (header flags ec rrc seq ++ body) 0 2 = be 2 tokWrap := rfl

@[simp] theorem ec_header : slice (header flags ec rrc seq ++ body) 4 6 = be 2 ec := rfl

@[simp] theorem rrc_header : slice (header flags ec rrc seq ++ body) 6 8 = be 2 rrc := rfl

@[simp] theorem seq_header : slice (header flags ec rrc seq ++ body) 8 16 = be 8 seq.toNat := rfl

theorem zeroed_header :
    (header flags ec rrc seq).take 4 ++ [0, 0, 0, 0] ++ (header flags ec rrc seq).drop 8 = header flags 0 0 seq := rfl

end

theorem ofNat_be_seq (seq : UInt64) : UInt64.ofNat (ofBe (be 8 seq.toNat)) = seq := by
  rw [Wire.ofBe_be 8 _ seq.toNat_lt, UInt64.ofNat_toNat]

/-! ## Rotation -/

theorem rotateLeft_back (body : Bytes) (r : Nat) :
    rotateLeft (body.drop (body.length - r % max body.length 1) ++ body.take (body.length - r % max body.length 1)) r =
      body := by
  have hn : r % max body.length 1 < max body.length 1 := Nat.mod_lt _ (by omega)
  generalize hk : r % max body.length 1 = k at hn
  have hlen : (body.drop (body.length - k) ++ body.take (body.length - k)).length = body.length := by
    simp only [List.length_append, List.length_drop, List.length_take]
    omega
  have hdrop : (body.drop (body.length - k)).length = min k body.length := by
    rw [List.length_drop]
    omega
  unfold rotateLeft
  rw [hlen, hk]
  dsimp only
  by_cases h : k ≤ body.length
  · rw [List.drop_left' (by omega), List.take_left' (by omega), List.take_append_drop]
  · have hnil : body = [] := List.eq_nil_of_length_eq_zero (by omega)
    simp [hnil]

theorem rotated_header (flags : UInt8) (ec : Nat) (seq : UInt64) (body : Bytes) (r : UInt16) :
    rotated (header flags ec 0 seq ++ body) r =
      header flags ec r.toNat seq ++
        (body.drop (body.length - r.toNat % max body.length 1) ++
          body.take (body.length - r.toNat % max body.length 1)) := by
  unfold rotated
  rfl

theorem body_back (body : Bytes) (r : Nat) : (if r ≠ 0 then
      rotateLeft (body.drop (body.length - r % max body.length 1) ++ body.take (body.length - r % max body.length 1)) r
      else body.drop (body.length - r % max body.length 1) ++ body.take (body.length - r % max body.length 1)) =
      body := by
  split
  · exact rotateLeft_back body r
  · rename_i h
    rw [not_not] at h
    simp [h]

/-! ## Flags and keys -/

theorem tokenFlags_sender (ctx : Krb5Context) (conf : Bool) :
    ctx.tokenFlags conf &&& flagSenderIsAcceptor = if ctx.initiate then 0 else flagSenderIsAcceptor := by
  unfold tokenFlags
  cases ctx.initiate <;> cases conf <;> cases ctx.acceptorSubkey.isSome <;> decide

theorem isConf_header (ctx : Krb5Context) (conf : Bool) (ec rrc : Nat) (seq : UInt64) (body : Bytes) :
    isConf (header (ctx.tokenFlags conf) ec rrc seq ++ body) = conf := by
  unfold isConf
  rw [flagsOf_header]
  unfold tokenFlags
  cases ctx.initiate <;> cases conf <;> cases ctx.acceptorSubkey.isSome <;> decide

theorem tokenFlags_subkey (ctx : Krb5Context) (conf : Bool) (h : ctx.acceptorSubkey.isSome = true) :
    ctx.tokenFlags conf &&& flagAcceptorSubkey ≠ 0 := by
  unfold tokenFlags
  rw [h]
  cases ctx.initiate <;> cases conf <;> decide

structure Matched (a b : Krb5Context) : Prop where
  roles : b.initiate = !a.initiate
  key : b.key = a.key
  subkey : b.acceptorSubkey = a.acceptorSubkey

variable {a b : Krb5Context}

theorem Matched.symm (h : Matched a b) : Matched b a :=
  ⟨by rw [h.roles, Bool.not_not], h.key.symm, h.subkey.symm⟩

theorem Matched.usage (h : Matched a b) : b.recvUsage = a.sendUsage := by
  unfold recvUsage sendUsage
  rw [h.roles]
  cases a.initiate <;> rfl

theorem Matched.recvKey (h : Matched a b) (conf : Bool) (ec rrc : Nat) (seq : UInt64) (body : Bytes) :
    b.recvKey (header (a.tokenFlags conf) ec rrc seq ++ body) = a.msgKey := by
  unfold Krb5Context.recvKey msgKey
  rw [h.subkey, h.key]
  cases hsub : a.acceptorSubkey with
  | none => rfl
  | some sub =>
    have hlen : 3 ≤ (header (a.tokenFlags conf) ec rrc seq ++ body).length := by
      rw [List.length_append, header_length]
      omega
    have hflag := tokenFlags_subkey a conf (by rw [hsub]; rfl)
    exact if_pos ⟨hlen, hflag⟩

theorem Matched.checkCommon (h : Matched a b) (conf : Bool) (ec rrc : Nat) (seq : UInt64) (body : Bytes) :
    b.checkCommon (header (a.tokenFlags conf) ec rrc seq ++ body) tokWrap = .ok (header (a.tokenFlags conf) ec rrc seq) := by
  have hlen : ¬ (header (a.tokenFlags conf) ec rrc seq ++ body).length < 16 := by
    rw [List.length_append, header_length]
    omega
  have hsender : a.tokenFlags conf &&& flagSenderIsAcceptor = if b.initiate then flagSenderIsAcceptor else 0 := by
    rw [tokenFlags_sender, h.roles]
    cases a.initiate <;> rfl
  unfold Krb5Context.checkCommon
  rw [if_neg hlen, flagsOf_header, if_neg (by rw [hsender]; simp), kind_header,
    Wire.ofBe_be 2 _ (by decide), if_neg (by simp), filler_header, if_neg (by simp), slice_header]

/-! ## Opening -/

variable {confounder msg : Bytes} {profile : MsgProfile} {key : EncryptionKey} {usage : Int32} {flags : UInt8}

theorem openSealed_plain {cipher : Bytes} {rrc : Nat} (body : Bytes)
    (h : profile.encrypt key.keyBytes usage confounder (msg ++ header flags 0 0 seq) = .ok cipher) :
    openSealed profile key usage (header flags 0 rrc seq ++ body) cipher 0 = .ok msg := by
  have hlen : (msg ++ header flags 0 0 seq).length - 16 = msg.length := by
    rw [List.length_append, header_length]
    omega
  have hcopy : (msg ++ header flags 0 0 seq).drop ((msg ++ header flags 0 0 seq).length - 16) =
      header flags 0 0 seq ++ [] := by
    rw [hlen, List.drop_left, List.append_nil]
  have hshort : ¬ (msg ++ header flags 0 0 seq).length < 16 + 0 := by
    rw [List.length_append, header_length]
    omega
  unfold openSealed
  rw [profile.decrypt_encrypt h]
  simp only [verified, bind, Except.bind, hcopy]
  rw [if_neg hshort, if_neg]
  · rw [hlen, Nat.sub_zero, List.take_left]
  · simp only [ne_eq, not_or, not_not]
    exact ⟨rfl, rfl, rfl, rfl, rfl⟩

theorem openSigned_plain {sum : Bytes} {ec rrc : Nat}
    (h : profile.checksum key.keyBytes usage (msg ++ header flags 0 0 seq) = .ok sum) :
    openSigned profile key usage (header flags ec rrc seq) (msg ++ sum) sum.length = .ok msg := by
  have hsum := profile.checksum_length h
  have hlen : (msg ++ sum).length - profile.checksumSize = msg.length := by
    rw [List.length_append]
    omega
  unfold openSigned
  dsimp only
  rw [hlen, List.take_left, List.drop_left, zeroed_header, h]
  have hfits : ¬ (sum.length ≠ profile.checksumSize ∨ (msg ++ sum).length < profile.checksumSize) := by
    rw [List.length_append]
    omega
  rw [if_neg hfits]
  simp

variable [MsgCrypto]

theorem sealToken_opens (h : a.sealToken conf msg seq confounder = .ok token) :
    ∃ profile ec body, findProfile a.msgKey = .ok profile ∧ ec < 2 ^ 16 ∧
      token = header (a.tokenFlags conf) ec 0 seq ++ body ∧
      ∀ rrc rest, openBody profile a.msgKey a.sendUsage (header (a.tokenFlags conf) ec rrc seq ++ rest)
        (header (a.tokenFlags conf) ec rrc seq) body ec = .ok msg := by
  obtain ⟨profile, hprofile, h⟩ := bind_eq_ok.mp h
  by_cases hconf : conf = true
  · subst hconf
    obtain ⟨cipher, hcipher, htoken⟩ := bind_eq_ok.mp h
    refine ⟨profile, 0, cipher, hprofile, by decide, (Except.ok.inj htoken).symm, fun rrc rest => ?_⟩
    unfold openBody
    rw [isConf_header]
    exact openSealed_plain rest (crypt_eq_ok hcipher)
  · rw [Bool.not_eq_true] at hconf
    subst hconf
    obtain ⟨sum, hsum, htoken⟩ := bind_eq_ok.mp h
    have hsum := crypt_eq_ok hsum
    have hsize : sum.length < 2 ^ 16 := by
      rw [profile.checksum_length hsum]
      exact profile.checksumSize_lt
    refine ⟨profile, sum.length, msg ++ sum, hprofile, hsize, ?_, fun rrc rest => ?_⟩
    · rw [← Except.ok.inj htoken, List.append_assoc]
    · unfold openBody
      rw [isConf_header]
      exact openSigned_plain hsum

theorem unwrap_sealToken (h : Matched a b)
    (hseal : a.sealToken conf msg seq confounder = .ok token) (overflowChecks : Bool) (r : UInt16) :
    b.unwrap overflowChecks (rotated token r) = b.inSequence overflowChecks msg conf seq := by
  obtain ⟨profile, ec, body, hprofile, hec, rfl, hopen⟩ := sealToken_opens hseal
  rw [rotated_header]
  unfold unwrap
  rw [h.recvKey, h.checkCommon, h.usage, isConf_header, ec_header, rrc_header, seq_header, drop_header, ofNat_be_seq,
    Wire.ofBe_be 2 ec (by simpa using hec), Wire.ofBe_be 2 r.toNat r.toNat_lt]
  simp only [body_back, hprofile, hopen, bind, Except.bind]

end Krb5Context

/-! ## Sequence numbers in order -/

/-- A receiver that looks at sequence numbers expects `seq` next. -/
def Expects (overflowChecks : Bool) (s : SeqState) (seq : UInt64) : Prop :=
  s.doReplay = true ∨ s.doSequence = true →
    s.seqmask = seqmaskOf true ∧ s.next = seq - s.base ∧ (overflowChecks = true → s.base ≤ seq)

theorem expects_new (overflowChecks : Bool) (base : UInt64) (doReplay doSequence : Bool) :
    Expects overflowChecks (SeqState.new base doReplay doSequence true) base :=
  fun _ => ⟨rfl, (UInt64.sub_self base).symm, fun _ => UInt64.le_refl _⟩

theorem and_seqmask_wide (x : UInt64) : x &&& seqmaskOf true = x :=
  and_seqmaskOf true x (Nat.le_of_lt_succ x.toNat_lt)

theorem addU64_eq_some {a b c : UInt64} (h : addU64 overflowChecks a b = some c) :
    c = a + b ∧ (overflowChecks = true → a.toNat + b.toNat < 2 ^ 64) := by
  unfold addU64 at h
  split at h
  · cases h
  · rename_i hno
    exact ⟨(Option.some.inj h).symm, fun ho => Nat.lt_of_not_le fun hle => hno ⟨ho, hle⟩⟩

theorem addU64_of_lt {a b : UInt64} (h : overflowChecks = true → a.toNat + b.toNat < 2 ^ 64) :
    addU64 overflowChecks a b = some (a + b) :=
  if_neg fun ⟨ho, hle⟩ => absurd (h ho) (Nat.not_lt.mpr hle)

theorem Expects.check {s : SeqState} (h : Expects overflowChecks s seq)
    (hnext : addU64 overflowChecks seq 1 = some next) :
    ∃ s', s.check overflowChecks seq = some (s', .complete) ∧ Expects overflowChecks s' next := by
  obtain ⟨rfl, hbound⟩ := addU64_eq_some hnext
  by_cases hflags : s.doReplay = false ∧ s.doSequence = false
  · refine ⟨s, ?_, fun hf => ?_⟩
    · unfold SeqState.check
      rw [if_pos hflags]
    · rw [hflags.1, hflags.2] at hf
      cases hf <;> contradiction
  · have hf : s.doReplay = true ∨ s.doSequence = true := by
      revert hflags
      cases s.doReplay <;> cases s.doSequence <;> simp
    obtain ⟨hmask, hrel, hbase⟩ := h hf
    have hshift : addU64 overflowChecks (0 : UInt64) 1 = some 1 := by
      apply addU64_of_lt
      intro _
      decide
    have hafter : addU64 overflowChecks s.next 1 = some (s.next + 1) := by
      apply addU64_of_lt
      intro ho
      have := hbound ho
      have := UInt64.toNat_sub_of_le _ _ (hbase ho)
      rw [hrel]
      omega
    refine ⟨{ s with recvmap := s.recvmap <<< 1 ||| 1, next := s.next + 1 }, ?_, fun _ => ⟨hmask, ?_, ?_⟩⟩
    · unfold SeqState.check
      rw [if_neg hflags, hmask, and_seqmask_wide, ← hrel]
      simp [hshift, hafter, shlU64, and_seqmask_wide]
    · show s.next + 1 = seq + 1 - s.base
      rw [hrel, UInt64.sub_eq_add_neg, UInt64.sub_eq_add_neg, UInt64.add_assoc, UInt64.add_comm (-s.base) 1,
        UInt64.add_assoc]
    · intro ho
      have hle := UInt64.le_iff_toNat_le.mp (hbase ho)
      apply UInt64.le_iff_toNat_le.mpr
      rw [toNat_add_one (hbound ho)]
      exact Nat.le_succ_of_le hle

/-! ## Runs -/

section
variable [MsgCrypto] {overflowChecks : Bool}

def Carries (sender : Krb5Context) (q : InFlight) (seq : UInt64) : Prop :=
  ∃ token confounder r, sender.sealToken q.conf q.msg seq confounder = .ok token ∧ q.token = rotated token r

def Numbered (overflowChecks : Bool) (sender : Krb5Context) : UInt64 → List InFlight → UInt64 → Prop
  | seq, [], stop => seq = stop
  | seq, q :: queue, stop =>
    Carries sender q seq ∧ ∃ next, addU64 overflowChecks seq 1 = some next ∧
      Numbered overflowChecks sender next queue stop

variable {queue : List InFlight} {l : Link} {msg : Bytes}

theorem Numbered.snoc {sender : Krb5Context} {q : InFlight}
    (h : Numbered overflowChecks sender seq queue stop) (hq : Carries sender q stop)
    (hnext : addU64 overflowChecks stop 1 = some next) : Numbered overflowChecks sender seq (queue ++ [q]) next := by
  induction queue generalizing seq with
  | nil =>
    obtain rfl : seq = stop := h
    exact ⟨hq, next, hnext, rfl⟩
  | cons p queue ih =>
    obtain ⟨hp, n, hn, hrest⟩ := h
    exact ⟨hp, n, hn, ih hrest⟩

theorem Numbered.congr {sender sender' : Krb5Context} (h : Numbered overflowChecks sender seq queue stop)
    (hseal : ∀ conf msg n confounder, sender'.sealToken conf msg n confounder = sender.sealToken conf msg n confounder) :
    Numbered overflowChecks sender' seq queue stop := by
  induction queue generalizing seq with
  | nil => exact h
  | cons p queue ih =>
    obtain ⟨⟨token, confounder, r, hp, hr⟩, n, hn, hrest⟩ := h
    exact ⟨⟨token, confounder, r, (hseal ..).trans hp, hr⟩, n, hn, ih hrest⟩

/-- One direction of a link: the queue holds the tokens from the one expected to the last one sent. -/
def Ordered (overflowChecks : Bool) (sender receiver : Krb5Context) (queue : List InFlight) : Prop :=
  ∃ seq, Expects overflowChecks receiver.seqstate seq ∧ Numbered overflowChecks sender seq queue sender.seqSend

structure Synced (overflowChecks : Bool) (l : Link) : Prop where
  matched : Krb5Context.Matched l.left l.right
  toRight : Ordered overflowChecks l.left l.right l.toRight
  toLeft : Ordered overflowChecks l.right l.left l.toLeft

theorem Synced.swap (h : Synced overflowChecks l) : Synced overflowChecks l.swap :=
  ⟨h.matched.symm, h.toLeft, h.toRight⟩

theorem Established.synced (h : Established l) : Synced overflowChecks l := by
  obtain ⟨r, s, hright⟩ := h.atRight
  obtain ⟨r', s', hleft⟩ := h.atLeft
  refine ⟨⟨h.roles, h.key, h.subkey⟩, ⟨l.left.seqSend, ?_, ?_⟩, ⟨l.right.seqSend, ?_, ?_⟩⟩
  · rw [hright]
    exact expects_new _ _ _ _
  · rw [h.toRight]
    exact rfl
  · rw [hleft]
    exact expects_new _ _ _ _
  · rw [h.toLeft]
    exact rfl

theorem Synced.sendRight (h : Synced overflowChecks l) (conf : Bool) (msg : Bytes) (r : UInt16)
    (confounder : Bytes) : Synced overflowChecks (l.sendRight overflowChecks conf msg r confounder) := by
  unfold Link.sendRight
  split
  · exact h
  rename_i token left hwrap
  obtain ⟨t, hseal, hwrap⟩ := bind_eq_ok.mp hwrap
  split at hwrap
  · cases hwrap
  rename_i next hnext
  obtain ⟨rfl, rfl⟩ := Prod.mk.inj (Except.ok.inj hwrap)
  obtain ⟨seq, hexpects, hnumbered⟩ := h.toRight
  refine ⟨⟨h.matched.roles, h.matched.key, h.matched.subkey⟩, ⟨seq, hexpects, ?_⟩, h.toLeft⟩
  exact (hnumbered.snoc ⟨t, confounder, r, hseal, rfl⟩ hnext).congr fun _ _ _ _ => rfl

theorem Synced.receiveRight (h : Synced overflowChecks l) : Synced overflowChecks (l.receiveRight overflowChecks).1 ∧
      ∀ d ∈ (l.receiveRight overflowChecks).2, d.result = .ok ⟨d.sent.msg, d.sent.conf, .complete⟩ := by
  unfold Link.receiveRight
  cases hqueue : l.toRight with
  | nil => exact ⟨h, fun d hd => absurd hd List.not_mem_nil⟩
  | cons sent queue =>
    obtain ⟨seq, hexpects, hnumbered⟩ := h.toRight
    rw [hqueue] at hnumbered
    obtain ⟨⟨token, confounder, r, hseal, htoken⟩, next, hnext, hrest⟩ := hnumbered
    obtain ⟨s', hcheck, hexpects'⟩ := hexpects.check hnext
    have hunwrap : l.right.unwrap overflowChecks sent.token =
        .ok (⟨sent.msg, sent.conf, .complete⟩, { l.right with seqstate := s' }) := by
      rw [htoken, Krb5Context.unwrap_sealToken h.matched hseal]
      unfold Krb5Context.inSequence
      rw [hcheck]
    simp only [hunwrap]
    refine ⟨⟨⟨h.matched.roles, h.matched.key, h.matched.subkey⟩, ⟨next, hexpects', hrest⟩, ?_⟩, ?_⟩
    · obtain ⟨seq', hexpects', hnumbered'⟩ := h.toLeft
      exact ⟨seq', hexpects', hnumbered'.congr fun _ _ _ _ => rfl⟩
    · intro d hd
      rw [List.mem_singleton.mp hd]

theorem Synced.step (h : Synced overflowChecks l) (e : LinkEvent) : Synced overflowChecks (l.step overflowChecks e).1 ∧
      ∀ d ∈ (l.step overflowChecks e).2, d.result = .ok ⟨d.sent.msg, d.sent.conf, .complete⟩ := by
  cases e with
  | send left conf msg r confounder =>
    cases left with
    | true => exact ⟨h.sendRight .., fun d hd => absurd hd List.not_mem_nil⟩
    | false => exact ⟨(h.swap.sendRight ..).swap, fun d hd => absurd hd List.not_mem_nil⟩
  | receive right =>
    cases right with
    | true => exact h.receiveRight
    | false => exact ⟨h.swap.receiveRight.1.swap, h.swap.receiveRight.2⟩

theorem Synced.run (h : Synced overflowChecks l) (es : List LinkEvent) :
    ∀ d ∈ l.run overflowChecks es, d.result = .ok ⟨d.sent.msg, d.sent.conf, .complete⟩ := by
  induction es generalizing l with
  | nil => exact fun d hd => absurd hd List.not_mem_nil
  | cons e es ih =>
    intro d hd
    cases List.mem_append.mp hd with
    | inl hd => exact (h.step e).2 d hd
    | inr hd => exact ih (h.step e).1 d hd

/-! ## Sizes -/

theorem wrap_length {ctx ctx' : Krb5Context} (h : ctx.wrap overflowChecks conf msg confounder = .ok (token, ctx')) :
    ∃ profile, MsgCrypto.findEtype ctx.msgKey.keytype = some profile ∧
      token.length = msg.length + 16 + profile.checksumSize + if conf then 16 + profile.confounderSize else 0 := by
  obtain ⟨t, hseal, hwrap⟩ := bind_eq_ok.mp h
  split at hwrap
  · cases hwrap
  obtain ⟨rfl, -⟩ := Prod.mk.inj (Except.ok.inj hwrap)
  obtain ⟨profile, hprofile, hseal⟩ := bind_eq_ok.mp hseal
  refine ⟨profile, ?_, ?_⟩
  · unfold findProfile at hprofile
    split at hprofile
    · rename_i p hp
      rw [hp, Except.ok.inj hprofile]
    · cases hprofile
  · by_cases hconf : conf = true
    · subst hconf
      obtain ⟨cipher, hcipher, htoken⟩ := bind_eq_ok.mp hseal
      rw [← Except.ok.inj htoken, List.length_append, profile.encrypt_length (crypt_eq_ok hcipher),
        List.length_append, Krb5Context.header_length, if_pos rfl]
      omega
    · rw [Bool.not_eq_true] at hconf
      subst hconf
      obtain ⟨sum, hsum, htoken⟩ := bind_eq_ok.mp hseal
      rw [← Except.ok.inj htoken, List.length_append, List.length_append, Krb5Context.header_length,
        profile.checksum_length (crypt_eq_ok hsum)]
      simp
      omega

theorem wrapSizeLimit_exact {ctx ctx' : Krb5Context} {n : Nat} (hlimit : 0 < ctx.wrapSizeLimit conf n)
    (h : ctx.wrap overflowChecks conf msg confounder = .ok (token, ctx')) :
    token.length ≤ n ↔ msg.length ≤ ctx.wrapSizeLimit conf n := by
  obtain ⟨profile, hprofile, hlength⟩ := wrap_length h
  unfold Krb5Context.wrapSizeLimit at hlimit ⊢
  rw [hprofile] at hlimit ⊢
  cases conf with
  | true =>
    simp only [if_true] at hlimit hlength ⊢
    omega
  | false =>
    simp only [Bool.false_eq_true, if_false] at hlimit hlength ⊢
    omega

/-- Every message taken in order is the one sent, with its flag and in sequence, whatever the interleaving
and the rotations; and a limit on the size of tokens is exact. -/
theorem wrap_unwrap_inverse (overflowChecks : Bool) {l : Link} (h : Established l) (es : List LinkEvent) :
    (∀ d ∈ l.run overflowChecks es, d.result = .ok ⟨d.sent.msg, d.sent.conf, .complete⟩) ∧
      ∀ (ctx : Krb5Context) (conf : Bool) (n : Nat), 0 < ctx.wrapSizeLimit conf n →
        (∀ msg confounder token ctx', msg.length ≤ ctx.wrapSizeLimit conf n →
          ctx.wrap overflowChecks conf msg confounder = .ok (token, ctx') → token.length ≤ n) ∧
        ∃ msg : Bytes, ctx.wrapSizeLimit conf n < msg.length ∧
          ∀ confounder token ctx', ctx.wrap overflowChecks conf msg confounder = .ok (token, ctx') →
            n < token.length := by
  refine ⟨h.synced.run es, fun ctx conf n hlimit => ⟨?_, ?_⟩⟩
  · intro msg confounder token ctx' hmsg hwrap
    exact (wrapSizeLimit_exact hlimit hwrap).mpr hmsg
  · refine ⟨List.replicate (ctx.wrapSizeLimit conf n + 1) 0, by simp, fun confounder token ctx' hwrap => ?_⟩
    apply Nat.lt_of_not_le
    intro hle
    have := (wrapSizeLimit_exact hlimit hwrap).mp hle
    rw [List.length_replicate] at this
    omega

end

/-! ## A conversation -/

def mark (key : Bytes) (usage : Int32) (data : Bytes) : UInt8 :=
  (key ++ data).foldl (· + ·) (UInt8.ofNat usage.toInt.toNat)

def sumProfile : MsgProfile where
  confounderSize := 1
  checksumSize := 1
  encrypt key usage confounder plain :=
    match confounder with
    | [c] => .ok (c :: (plain ++ [mark key usage plain]))
    | _ => .error "confounder"
  decrypt key usage cipher :=
    let plain := cipher.tail.dropLast
    if cipher.getLast? = some (mark key usage plain) then .ok plain else .error "integrity"
  checksum key usage data := .ok [mark key usage data]
  checksumSize_lt := by decide
  decrypt_encrypt := by
    intro key usage confounder plain cipher h
    split at h
    · rename_i c
      cases h
      have hlast : (c :: (plain ++ [mark key usage plain])).getLast? = some (mark key usage plain) := by
        rw [← List.cons_append, List.getLast?_concat]
      simp [hlast]
    · cases h
  encrypt_length := by
    intro key usage confounder plain cipher h
    split at h
    · cases h
      simp
    · cases h
  checksum_length := by
    intro key usage data sum h
    cases h
    rfl

section

@[reducible] local instance gssCrypto : MsgCrypto := ⟨fun etype => if etype = 18 then some sumProfile else none⟩

def talk : Link where
  left := ⟨true, ⟨18, [3]⟩, some ⟨18, [5]⟩, 40, SeqState.new 7 true true true⟩
  right := ⟨false, ⟨18, [3]⟩, some ⟨18, [5]⟩, 7, SeqState.new 40 true true true⟩
  toRight := []
  toLeft := []

theorem talk_established : Established talk :=
  ⟨rfl, rfl, rfl, ⟨true, true, rfl⟩, ⟨true, true, rfl⟩, rfl, rfl⟩

def talking : List LinkEvent :=
  [.send true true [104, 105] 3 [9], .send false false [111, 107] 65535 [], .send true false [33] 0 [],
    .receive true, .receive false, .receive true]

theorem talk_understood : (talk.run true talking).length = 3 ∧
      (∀ d ∈ talk.run true talking, d.result = .ok ⟨d.sent.msg, d.sent.conf, .complete⟩) ∧
      talk.left.wrapSizeLimit true 60 = 26 ∧
      ∃ msg : Bytes, 26 < msg.length ∧ ∀ confounder token ctx',
        talk.left.wrap true true msg confounder = .ok (token, ctx') → 60 < token.length :=
  have h := wrap_unwrap_inverse true talk_established talking
  ⟨by decide +kernel, h.1, by decide, (h.2 talk.left true 60 (by decide)).2⟩

end

end Gss

end Krb5Rs
