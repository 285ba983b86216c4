import Krb5Rs.KadmindSound

/-!
# Runs of the administration server

No request of a run takes `LOCKDOWN_KEYS` from a principal, deletes or renames
it, sets keys of its caller's choice or answers any of its keys.
-/

namespace Krb5Rs

open Wire (Bytes)
open Utf8 (Str)
open Flags (intersects)
open Stateful (after Yields yields_bind yields_get_bind yields_pure)
open LmdbStore (StoredAt)

section
variable [Alphabet] [Crypto]

/-! ## Answers -/

def HeldAt (s : LmdbStore) (key : Bytes) (x : EncryptionKey) : Prop :=
  ∃ e d, StoredAt s key e ∧ d ∈ e.keyData ∧ HoldsKey s.master d x

def Discloses (env : Env) (s : LmdbStore) (answer : Answer) (s' : LmdbStore) : Prop :=
  answer.keys = [] ∨ ∃ p, Kadm5.lockdown env s p = .ok false ∧ ∀ x ∈ answer.keys, HeldAt s' p.key x

namespace Kadm5

theorem yields_currentKeys (p : Princ) (kvno : UInt32) (form : List KeyEntry → Answer) (s : LmdbStore) :
    Yields (fun answer s' => (∃ keys, answer = form keys ∧ ∀ k ∈ keys, HeldAt s' p.key k.key) ∨
      ∃ code, answer = { code }) (currentKeys p kvno form) s := by
  intro answer s' h
  rcases answering_eq_ok h with ⟨record, s₁, hrequire, h⟩ | ⟨e, rfl⟩
  · cases h
    obtain ⟨raw, hraw, hrecord⟩ := AdminOps.require_eq_ok hrequire
    refine .inl ⟨keysOf record kvno, rfl, fun k hk => ?_⟩
    obtain ⟨d, hd, hheld⟩ := (recordFromEntry_keys hrecord).2 k (List.mem_of_mem_filter hk)
    exact ⟨raw, d, hraw, hd, hheld⟩
  · exact .inr ⟨_, rfl⟩

variable (k : Kadm5) (env : Env) (caller : Caller) (princ : Option Str)

theorem yields_extractKeys (kvno : UInt32)
    (s : LmdbStore) : Yields (Discloses env s) (k.extractKeys env caller princ kvno) s := by
  refine yields_get_bind.mpr ?_
  split
  · exact yields_pure (.inl rfl)
  rename_i p _
  split
  · exact yields_pure (.inl rfl)
  split
  · exact yields_pure (.inl rfl)
  · exact yields_pure (.inl rfl)
  · rename_i hlock
    intro answer s' h
    rcases yields_currentKeys p kvno extracted s answer s' h with ⟨keys, rfl, hheld⟩ | ⟨code, rfl⟩
    · refine .inr ⟨p, hlock, fun x hx => ?_⟩
      simp only [Answer.keys, extracted, List.nil_append, List.map_map, List.mem_map] at hx
      obtain ⟨entry, hentry, rfl⟩ := hx
      exact hheld entry hentry
    · exact .inl rfl

theorem yields_noKeys (m : Txn UInt32) (s : LmdbStore) : Yields (Discloses env s) (noKeys m) s :=
  yields_bind fun _ _ _ => yields_pure (.inl rfl)

variable [KeyGen]

theorem yields_chrandTo (p : Princ) (keepold : Bool) (ks : List KeySalt) (s : LmdbStore) :
    Yields (fun answer s' => answer.keyData = [] ∧ ∀ x ∈ answer.blocks, HeldAt s' p.key x)
      (k.chrandTo env caller p keepold ks) s := by
  have hnone : ∀ code s', ({ code } : Answer).keyData = [] ∧ ∀ x ∈ ({ code } : Answer).blocks, HeldAt s' p.key x :=
    fun code s' => ⟨rfl, fun x hx => nomatch hx⟩
  refine yields_bind fun c s₁ _ => ?_
  split
  · exact yields_pure (hnone c s₁)
  split
  · exact yields_pure (hnone _ s₁)
  · intro answer s' h
    rcases answering_eq_ok h with ⟨kvno, s₂, -, h⟩ | ⟨e, rfl⟩
    · rcases yields_currentKeys p kvno blocksOf s₂ answer s' h with ⟨keys, rfl, hheld⟩ | ⟨code, rfl⟩
      · refine ⟨rfl, fun x hx => ?_⟩
        obtain ⟨entry, hentry, rfl⟩ := List.mem_map.mp hx
        exact hheld entry hentry
      · exact hnone code s'
    · exact hnone _ s'

theorem yields_chrand (keepold : Bool)
    (ks : List KeySalt) (s : LmdbStore) : Yields (Discloses env s) (k.chrand env caller princ keepold ks) s := by
  refine yields_get_bind.mpr ?_
  split
  · exact yields_pure (.inl rfl)
  rename_i p locked hauth
  refine yields_bind fun answer s' hto => yields_pure ?_
  obtain ⟨hdata, hblocks⟩ := k.yields_chrandTo env caller p keepold ks s answer s' hto
  cases locked with
  | true => exact .inl (by simp [Answer.keys, hdata])
  | false =>
    refine .inr ⟨p, keychangeAuth_eq_ok hauth, fun x hx => ?_⟩
    simp only [Answer.keys, hdata, List.map_nil, List.append_nil, Bool.false_eq_true, if_false] at hx
    exact hblocks x hx

theorem yields_handle (args : WriteArgs) (s : LmdbStore) : Yields (Discloses env s) (k.handle env caller args) s := by
  cases args with
  | chrandPrincipal princ keepold ks => exact k.yields_chrand env caller princ keepold ks s
  | extractKeys princ kvno => exact k.yields_extractKeys env caller princ kvno s
  | _ => exact yields_noKeys env _ s

theorem yields_write (api : UInt32) (args : WriteArgs) (s : LmdbStore) :
    Yields (fun reply s' => Discloses env s reply.answer s') (k.write env caller api args) s := by
  refine yields_get_bind.mpr ?_
  split
  · exact yields_pure (.inl rfl)
  split
  · exact yields_pure (.inl rfl)
  · exact yields_bind fun answer s' h =>
      yields_pure (k.yields_handle env caller args s answer s' h)

end Kadm5

/-! ## Runs -/

structure AdminCall where
  env : Env
  caller : Caller
  api : UInt32
  args : WriteArgs

variable [KeyGen] {key : Bytes}

def Kadm5.serve (k : Kadm5) (s : LmdbStore) (c : AdminCall) : LmdbStore := after (k.write c.env c.caller c.api c.args) s

def Kadm5.run (k : Kadm5) (s : LmdbStore) (calls : List AdminCall) : LmdbStore := calls.foldl k.serve s

/-- What a call may do to a locked principal, and what it may tell. -/
structure LockdownHolds (k : Kadm5) (key : Bytes) (s : LmdbStore) (c : AdminCall) : Prop where
  guarded : Guarded c.env key s (k.serve s c)
  silent : ∀ reply s', k.write c.env c.caller c.api c.args s = .ok reply s' →
    reply.answer.keys = [] ∨ ∃ p : Princ, p.key ≠ key ∧ ∀ x ∈ reply.answer.keys, HeldAt s' p.key x

theorem lockdownHolds_of_locked {k : Kadm5} {s : LmdbStore} {c : AdminCall} {e : MitEntry}
    (hlocked : Locked s key e) (hasked : k.UnsetsAsAsked c.env key c.caller c.args) : LockdownHolds k key s c where
  guarded := k.guarded_write c.env key c.caller c.api hasked s
  silent := by
    intro reply s' h
    rcases k.yields_write c.env c.caller c.api c.args s reply s' h with hnone | ⟨p, hlock, hheld⟩
    · exact .inl hnone
    · exact .inr ⟨p, ne_of_unlocked hlocked hlock, hheld⟩

theorem locked_run {k : Kadm5} {calls : List AdminCall} : ∀ {s : LmdbStore} {e : MitEntry}, Locked s key e →
      (∀ c ∈ calls, k.UnsetsAsAsked c.env key c.caller c.args) → ∃ e', Locked (k.run s calls) key e' := by
  induction calls with
  | nil => exact fun hlocked _ => ⟨_, hlocked⟩
  | cons c calls ih =>
    intro s e hlocked hasked
    obtain ⟨e', -, hlocked', -⟩ := (lockdownHolds_of_locked hlocked (hasked c (List.mem_cons_self ..))).guarded e hlocked
    exact ih hlocked' fun c' hc' => hasked c' (List.mem_cons_of_mem _ hc')

/-- After any calls the principal is still locked, and the next call is held to it as well. -/
theorem lockdown_kept_in_runs {k : Kadm5} {key : Bytes} {s : LmdbStore} {e : MitEntry} {calls : List AdminCall}
    {c : AdminCall} (hlocked : Locked s key e)
    (hasked : ∀ c' ∈ calls ++ [c], k.UnsetsAsAsked c'.env key c'.caller c'.args) :
    (∃ e', Locked (k.run s calls) key e') ∧ LockdownHolds k key (k.run s calls) c := by
  obtain ⟨e', hlocked'⟩ := locked_run hlocked fun c' hc' => hasked c' (List.mem_append_left _ hc')
  exact ⟨⟨e', hlocked'⟩, lockdownHolds_of_locked hlocked' (hasked c (by simp))⟩

end

/-! ## A restricted administrator -/

section
local instance lockdownNames : Alphabet := Alphabet.ascii
attribute [local instance] Crypto.toy
local instance lockdownKeyGen : KeyGen := ⟨fun _ password _ => .ok password, fun _ bytes => .ok bytes⟩

def lockdownKm : MitEntry where
  principal := ⟨1, [⟨[75], rfl⟩, ⟨[77], rfl⟩]⟩
  realm := ⟨[68], rfl⟩
  attributes := 0x00800040
  tlData := [⟨actkvno, [1, 0, 1, 0, 0, 0, 0, 0]⟩, ⟨mkvno, [1, 0]⟩]
  keyData := [⟨1, 1, [(18, [1, 0, 1, 1])]⟩]

def lockedEntry : MitEntry :=
  { lockdownKm with
    principal := ⟨1, [⟨[100], rfl⟩]⟩
    attributes := lockdownKeys
    tlData := [⟨modPrinc, [5, 0, 0, 0, 100, 64, 68, 0]⟩]
    keyData := [⟨1, 1, [(18, [1, 0, 1, 7])]⟩] }

def lockedKey : Bytes := [100, 64, 68]

def lockdownStore : LmdbStore where
  realm := ⟨[68], rfl⟩
  suppliedMaster := ⟨18, [1]⟩
  principals key :=
    if key = [75, 47, 77, 64, 68] then lockdownKm.encode.toOption.map (·.2)
    else if key = lockedKey then lockedEntry.encode.toOption.map (·.2)
    else none
  master := ⟨[(1, ⟨18, [1]⟩)], [⟨1, 0⟩]⟩
  ulog := none

def lockdownReadings : Readings := ⟨⟨7, 0⟩, ⟨7, 7, 7⟩, fun _ => [], fun _ => ⟨7, 0⟩⟩

def lockdownEnv : Env where
  now := 7
  writes _ := lockdownReadings
  fresh _ _ := [9]
  policies _ := .ok none
  pwqual _ _ _ _ := .ok ()
  lockoutRecord _ := .ok ()

def modifier : Princ := ⟨⟨1, [⟨[109], rfl⟩]⟩, ⟨[68], rfl⟩⟩

def preauthRestrictions : AclRestrictions where
  mask := FieldMask.attributes
  requireAttrs := PrincipalAttributes.requiresPreAuth
  forbidAttrs := 0xffffffff
  policy := none
  princLifetime := 0
  pwLifetime := 0
  maxLife := 0
  maxRenewableLife := 0

def restrictedServer : Kadm5 where
  realm := ⟨[68], rfl⟩
  acl := [⟨some modifier, aclModify, none, some preauthRestrictions⟩]
  keysalts := [(18, .normal)]
  historyEnctype := 18
  maxLife := ⟨0, 0⟩
  maxRlife := ⟨0, 0⟩
  expiration := none
  flags := 0

def modifyLocked (attributes mask : UInt32) : AdminCall where
  env := lockdownEnv
  caller := ⟨modifier, ⟨[109, 64, 68], rfl⟩, false, true⟩
  api := 0x12345704
  args := .modifyPrincipal
    { principal := some [100], princExpireTime := 0, pwExpiration := 0, maxLife := 60, attributes, policy := none
      maxRenewableLife := 0, failAuthCount := 0, tlData := [], keyData := [] } mask

theorem locked_lockedEntry : Locked lockdownStore lockedKey lockedEntry :=
  ⟨⟨_, rfl, by decide +kernel⟩, by decide⟩

theorem asked_of_modifyLocked (c : AdminCall) (h : c = modifyLocked lockdownKeys FieldMask.attributes) :
    restrictedServer.UnsetsAsAsked c.env lockedKey c.caller c.args := by
  subst h
  intro rec mask p restr hargs hname _ hrestr hunsets
  obtain ⟨rfl, rfl⟩ := WriteArgs.modifyPrincipal.inj hargs
  have hp : p = ⟨lockedEntry.principal, lockedEntry.realm⟩ :=
    Except.ok.inj (hname.symm.trans (by decide +kernel))
  subst hp
  have hr : restr = [preauthRestrictions] := Option.some.inj (hrestr.symm.trans (by decide +kernel))
  subst hr
  exact absurd hunsets (by decide +kernel)

theorem lockedEntry_kept_in_runs : LockdownHolds restrictedServer lockedKey
      (restrictedServer.run lockdownStore [modifyLocked lockdownKeys FieldMask.attributes])
      (modifyLocked lockdownKeys FieldMask.attributes) :=
  (lockdown_kept_in_runs locked_lockedEntry fun c hc => asked_of_modifyLocked c (by simpa using hc)).2

/-- The request sets only the maximum life; `+requires_preauth` makes it set the attributes as well. -/
theorem restrictions_unset_lockdown : Locked lockdownStore lockedKey lockedEntry ∧
    ∃ e, StoredAt (restrictedServer.run lockdownStore [modifyLocked 0 FieldMask.maxLife]) lockedKey e ∧
      intersects e.attributes lockdownKeys = false := by
  refine ⟨locked_lockedEntry,
    { lockedEntry with
      attributes := PrincipalAttributes.requiresPreAuth
      maxLife := 60
      tlData := [⟨modPrinc, [7, 0, 0, 0, 109, 64, 68, 0]⟩] },
    ⟨[128, 0, 0, 0, 60, 0, 0, 0, 0, 0, 0, 0, 0, 0, 0, 0, 0, 0, 0, 0, 1, 0, 1, 0, 2, 0, 8, 0, 7, 0, 0, 0, 109, 64, 68, 0,
      1, 0, 1, 0, 18, 0, 4, 0, 1, 0, 1, 7], ?_, ?_⟩, ?_⟩
  · decide +kernel
  · decide +kernel
  · decide

end

end Krb5Rs
