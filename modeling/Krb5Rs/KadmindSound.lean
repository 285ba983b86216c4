import Krb5Rs.Kadmind
import Krb5Rs.AdminSound
import Krb5Rs.KeyOrigin

/-!
# Locked-down keys

What any request leaves of a principal with `LOCKDOWN_KEYS`: the attribute, the
entry, and keys that were there or that the server drew. The one exception is a
modification whose ACL restrictions unset the attribute after it was checked.
-/

namespace Krb5Rs

open Wire (Bytes bind_eq_ok)
open Utf8 (Str)
open Flags (intersects)
open Stateful (after Keeps after_bind_of after_get_bind after_of_ok)
open LmdbStore (StoredAt SamePrincipals KeptAt Reread Loaded after_checked_bind)

/-! ## Wrappers -/

section
variable {α β : Type} {m : Txn α} {refusal : StoreError → β} {f : α → Txn β}

theorem after_answering (P : LmdbStore → Prop) {s : LmdbStore} (hm : P (after m s))
    (hf : ∀ a s', m s = .ok a s' → P (after (f a) s')) : P (after (Kadm5.answering m refusal f) s) := by
  unfold Kadm5.answering
  unfold after at hm ⊢
  cases h : m s with
  | ok a s' =>
    simp only [h]
    exact hf a s' h
  | error e s' =>
    cases e <;> simpa only [h] using hm

theorem answering_eq_ok {s s' : LmdbStore} {b : β} (h : Kadm5.answering m refusal f s = .ok b s') :
    (∃ a s₁, m s = .ok a s₁ ∧ f a s₁ = .ok b s') ∨ ∃ e, b = refusal e := by
  unfold Kadm5.answering at h
  cases hm : m s with
  | ok a s₁ =>
    simp only [hm] at h
    exact .inl ⟨a, s₁, rfl, h⟩
  | error e s₁ =>
    cases e with
    | panicked => simp [hm] at h
    | error e =>
      simp only [hm, EStateM.Result.ok.injEq] at h
      exact .inr ⟨e, h.1.symm⟩

theorem after_coded (unknown : UInt32) (m : Txn α) (s : LmdbStore) : after (Kadm5.coded unknown m) s = after m s :=
  after_answering (· = after m s) rfl fun _ _ h => (after_of_ok h).symm

theorem keeps_answered {R : LmdbStore → LmdbStore → Prop} (hm : Keeps R m) (refusal : StoreError → β)
    (f : α → β) : Keeps R (Kadm5.answering m refusal fun a => pure (f a)) := fun s => by
  refine after_answering (R s) (hm s) fun a s' h => ?_
  have := hm s
  rwa [after_of_ok h] at this

theorem keeps_noKeys {R : LmdbStore → LmdbStore → Prop} {m : Txn UInt32} (hm : Keeps R m) :
    Keeps R (Kadm5.noKeys m) := fun s => by
  refine after_bind_of (R s) (hm s) fun c s' h => ?_
  have := hm s
  rwa [after_of_ok h] at this

end

/-! ## Locked principals -/

theorem lockdownKeys_eq : lockdownKeys = Flags.bit 23 := by decide

theorem storeCode_ne_ok (e : StoreError) : storeCode e Code.unkPrinc ≠ Code.ok := by
  unfold storeCode
  split
  · decide
  · decide
  · cases h : rejections.find? fun r => occursIn r.1.toList e.message.toList with
    | none => decide
    | some r =>
      have hmem : ∀ r ∈ rejections, r.2 ≠ Code.ok := by decide
      exact hmem r (List.mem_of_find?_eq_some h)
  · decide

/-- What the restrictions make of the request would unset `LOCKDOWN_KEYS`. -/
def Kadm5.restrictedUnsets (now : Int32) (rec : PrincipalEnt) (mask : UInt32) (restr : List AclRestrictions) : Bool :=
  let (ent, mask) := imposeAll now restr (requestedEntry rec) mask
  intersects mask FieldMask.attributes ∧ intersects ent.attributes lockdownKeys = false

variable {rec : PrincipalEnt} {mask : UInt32}

theorem Kadm5.clear_of_restrictedUnsets {now : Int32} {restr : List AclRestrictions}
    (h : restrictedUnsets now rec mask restr = false) :
    intersects (principalOptions now rec mask restr).1.attributes.clear lockdownKeys = false := by
  unfold restrictedUnsets at h
  unfold principalOptions optionsOf
  dsimp only at h ⊢
  split
  · rename_i hmask
    simp only [hmask, true_and, decide_eq_false_iff_not, Bool.not_eq_false, lockdownKeys_eq] at h
    rw [Flags.intersects_bit (by decide)] at h
    rw [lockdownKeys_eq, Flags.intersects_bit (by decide)]
    simp only [AttrChange.exactly, Flags.has_not (by decide : 23 < 32), h, Bool.not_true]
  · decide

section
variable [Alphabet]

def Locked (s : LmdbStore) (key : Bytes) (e : MitEntry) : Prop :=
  StoredAt s key e ∧ intersects e.attributes lockdownKeys = true

variable {s : LmdbStore} {p : Princ} {opts : PrincipalOptions} {env : Env} {key : Bytes} {e : MitEntry}

theorem rawEntry_eq_ok (h : Kadm5.rawEntry env s p = .ok (some e)) : StoredAt s p.key e := by
  obtain ⟨raw, hraw, h⟩ := bind_eq_ok.mp h
  cases raw with
  | none => cases h
  | some e' =>
    obtain ⟨_, -, h⟩ := bind_eq_ok.mp h
    cases Except.ok.inj h
    exact LmdbStore.getRaw_eq_ok hraw

theorem lockdown_ne_error_ok (env : Env) (s : LmdbStore) (p : Princ) : Kadm5.lockdown env s p ≠ .error Code.ok := by
  unfold Kadm5.lockdown
  split
  · intro h
    cases h
  · intro h
    exact absurd (Except.error.inj h) (by decide)
  · rename_i e _
    intro h
    exact storeCode_ne_ok e (Except.error.inj h)

theorem lockdown_eq_ok {b : Bool} (h : Kadm5.lockdown env s p = .ok b) :
    ∃ e, StoredAt s p.key e ∧ b = intersects e.attributes lockdownKeys := by
  unfold Kadm5.lockdown at h
  split at h
  · rename_i e he
    exact ⟨e, rawEntry_eq_ok he, (Except.ok.inj h).symm⟩
  · cases h
  · cases h

theorem ne_of_unlocked (hlocked : Locked s key e) (h : Kadm5.lockdown env s p = .ok false) : p.key ≠ key := by
  intro hkey
  obtain ⟨e', he', hfalse⟩ := lockdown_eq_ok h
  rw [hkey] at he'
  rw [hlocked.1.unique he', hlocked.2] at hfalse
  cases hfalse

theorem modified_guarded (policy : Option MitPolicy) (record : PrincipalRecord)
    (hclear : intersects opts.attributes.clear lockdownKeys = false)
    (h : intersects record.entry.attributes lockdownKeys = true) :
    intersects (AdminOps.modified env opts policy record).entry.attributes lockdownKeys = true := by
  have hattrs : (AdminOps.modified env opts policy record).entry.attributes =
      opts.attributes.apply record.entry.attributes := applyOptions_attributes _ record.entry opts
  rw [lockdownKeys_eq, Flags.intersects_bit (by decide)] at hclear h
  rw [hattrs, AttrChange.apply, lockdownKeys_eq, Flags.intersects_bit (by decide), Flags.has_remove (by decide),
    Flags.has_or, h, hclear]
  rfl

theorem map_some_eq_ok {x : Except StoreError MitEntry} {new : MitEntry} (h : x.map some = .ok (some new)) :
    x = .ok new := by
  cases x with
  | error e => cases h
  | ok e => exact congrArg Except.ok (Option.some.inj (Except.ok.inj h))

namespace Kadm5

variable {p : Princ}

theorem keychangeAuth_eq_ok {k : Kadm5} {caller : Caller} {req : Princ → Request}
    {princ : Option Str} {locked : Bool} (h : k.keychangeAuth env s caller req princ = .ok (p, locked)) :
    lockdown env s p = .ok locked := by
  obtain ⟨p', -, h⟩ := bind_eq_ok.mp h
  obtain ⟨locked', hlock, h⟩ := bind_eq_ok.mp h
  split at h
  · cases h
  · cases h
    exact hlock

theorem unlocked_of_allowed (h : modifyAllowed env s p rec mask = Code.ok) (hunsets : unsetsLockdown rec mask = true) :
    lockdown env s p = .ok false := by
  unfold modifyAllowed at h
  rw [if_pos hunsets] at h
  cases hlock : lockdown env s p with
  | error c =>
    simp only [hlock] at h
    exact absurd (h ▸ hlock) (lockdown_ne_error_ok env s p)
  | ok locked =>
    cases locked with
    | true =>
      simp only [hlock] at h
      exact absurd h (by decide)
    | false => rfl

variable [Crypto]

theorem keeps_checkSelfKeychange (env : Env) (caller : Caller) (p : Princ) :
    Keeps Reread (checkSelfKeychange env caller p) := by
  intro s
  unfold checkSelfKeychange
  split
  · exact Reread.refl s
  · split
    · exact Reread.refl s
    · exact keeps_answered (AdminOps.keeps_require p.name p.realm) _ _ s

theorem keeps_currentKeys (p : Princ) (kvno : UInt32) (form : List KeyEntry → Answer) :
    Keeps Reread (currentKeys p kvno form) :=
  keeps_answered (AdminOps.keeps_require p.name p.realm) _ _

theorem keeps_setkeyTo (env : Env) (caller : Caller) (hne : p.key ≠ key) (keepold : Bool)
    (keys : SetKeys) : Keeps (KeptAt key) (setkeyTo env caller p keepold keys) := by
  intro s
  unfold setkeyTo setkeyList
  repeat' split
  all_goals try exact KeptAt.refl key s
  have hlife : Keeps Reread (storedLife env p) := fun s =>
    Stateful.after_bind (R := Reread) (AdminOps.keeps_require p.name p.realm s) Reread.trans fun _ s' _ => by
      rw [LmdbStore.after_checked]
      exact Reread.refl s'
  have hkept := (hlife s).same.kept key
  refine after_answering (KeptAt key s) hkept fun life s' h' => ?_
  rw [after_of_ok h'] at hkept
  exact hkept.trans (keeps_answered (LmdbStore.keeps_updateRaw hne _ _) _ _ s')

end Kadm5

variable [Crypto] [KeyGen]

def Drawn (env : Env) (key : EncryptionKey) : Prop :=
  ∃ i, KeyGen.randomToKey key.keytype (env.fresh 0 i) = .ok key.keyBytes

/-- The locked principal under `key` stays locked, and its keys are its old ones or drawn. -/
def Guarded (env : Env) (key : Bytes) (s s' : LmdbStore) : Prop :=
  ∀ e, Locked s key e → ∃ e' keys, Locked s' key e' ∧ Loaded s keys ∧
    ∀ d ∈ e'.keyData, Inherits keys e.keyData (Drawn env) d

theorem Guarded.of_kept {s' : LmdbStore} (h : KeptAt key s s') : Guarded env key s s' :=
  fun e he => ⟨e, s.master, ⟨he.1.kept h, he.2⟩, .cached, fun _ hd => .inl hd⟩

theorem Guarded.of_reread {s₁ s₂ : LmdbStore} (h : Reread s s₁)
    (hg : Guarded env key s₁ s₂) : Guarded env key s s₂ := by
  intro e he
  obtain ⟨e', keys, hlocked, hloaded, hdata⟩ := hg e ⟨he.1.same h.same, he.2⟩
  exact ⟨e', keys, hlocked, h.loaded hloaded, hdata⟩

theorem Guarded.same {s₁ s₂ : LmdbStore} (hg : Guarded env key s s₁)
    (h : SamePrincipals s₁ s₂) : Guarded env key s s₂ := by
  intro e he
  obtain ⟨e', keys, hlocked, hloaded, hdata⟩ := hg e he
  exact ⟨e', keys, ⟨hlocked.1.same h, hlocked.2⟩, hloaded, hdata⟩

theorem guarded_updateRaw (env : Env) (key : Bytes) (r : Readings) (name : PrincipalName) (realm : Str)
    {f : MitEntry → MasterKeys → Except StoreError (Option MitEntry)}
    (hf : ∀ raw keys new, f raw keys = .ok (some new) →
      new.attributes = raw.attributes ∧ ∀ d ∈ new.keyData, d ∈ raw.keyData) :
    Keeps (Guarded env key) (LmdbStore.updateRaw r name realm f) := by
  intro s
  rcases LmdbStore.updateRaw_changes r name realm f s with h | ⟨keys, raw, new, hloaded, hraw, hnew, h⟩
  · exact .of_kept (h.kept key)
  by_cases hkey : unparseName name realm = key
  · subst hkey
    intro e he
    obtain rfl := he.1.unique hraw
    obtain ⟨hattrs, hdata⟩ := hf raw keys new hnew
    refine ⟨_, keys, ⟨h.storedAt hraw, ?_⟩, hloaded, fun d hd => .inl (hdata d hd)⟩
    show intersects new.attributes lockdownKeys = true
    rw [hattrs]
    exact he.2
  · exact .of_kept (h.kept hkey)

theorem guarded_updatePrincipalAs (env : Env) (key : Bytes) (r : Readings) (name : PrincipalName) (realm : Str)
    (modifier : Bytes) (tl : List TlData) {f : PrincipalRecord → Except StoreError PrincipalRecord}
    (hf : ∀ record record', f record = .ok record' →
      (intersects record.entry.attributes lockdownKeys = true →
        intersects record'.entry.attributes lockdownKeys = true) ∧
      ∀ k ∈ record'.entry.keys, k ∈ record.entry.keys ∨ Drawn env k.key) :
    Keeps (Guarded env key) (LmdbStore.updatePrincipalAs r name realm modifier tl f) := by
  intro s
  rcases LmdbStore.updatePrincipalAs_changes r name realm modifier tl f s with
    h | ⟨keys, raw, record, record', new, hloaded, hraw, hrecord, hrecord', hnew, h⟩
  · exact .of_kept (h.kept key)
  by_cases hkey : unparseName name realm = key
  · subst hkey
    intro e he
    obtain rfl := he.1.unique hraw
    obtain ⟨hattrs, hkeys⟩ := hf record record' hrecord'
    obtain ⟨hread, hheld⟩ := recordFromEntry_keys hrecord
    obtain ⟨merged, hmerged, hnew⟩ := bind_eq_ok.mp hnew
    cases hnew
    obtain ⟨hmergedAttrs, hinherits⟩ := mergeRecord_inherits hmerged
    refine ⟨_, keys, ⟨h.storedAt hraw, ?_⟩, hloaded, fun d hd => (hinherits d hd).imp fun k hk => ?_⟩
    · show intersects merged.attributes lockdownKeys = true
      rw [hmergedAttrs]
      exact hattrs (hread ▸ he.2)
    · obtain ⟨entry, hentry, rfl⟩ := List.mem_map.mp hk
      rcases hkeys entry hentry with hold | hdrawn
      · exact .inr (hheld entry hold)
      · exact .inl hdrawn
  · exact .of_kept (h.kept hkey)

/-! ## Changes of the record -/

theorem guarded_modifyPrincipal (env : Env) (key : Bytes) (a : AdminOps) (name : PrincipalName) (realm : Str)
    (hclear : intersects opts.attributes.clear lockdownKeys = false) :
    Keeps (Guarded env key) (a.modifyPrincipal env name realm opts) := by
  intro s
  refine after_checked_bind (Guarded env key s) (.of_kept (KeptAt.refl key s)) fun policy _ => ?_
  have hrequire := AdminOps.keeps_require name realm s
  refine after_bind_of (Guarded env key s) (.of_kept (hrequire.same.kept key)) fun _ s₁ h₁ => ?_
  rw [after_of_ok h₁] at hrequire
  refine .of_reread hrequire ?_
  have hwrite : Keeps (Guarded env key) (a.updatePrincipal (env.writes 0) name realm fun rec =>
      .ok (AdminOps.modified env opts policy rec)) := by
    intro s
    rw [AdminOps.updatePrincipal, AdminOps.after_spawnWrite]
    refine guarded_updatePrincipalAs env key (env.writes 0) name realm a.modifier a.tlData (fun record record' h => ?_) s
    cases h
    exact ⟨modified_guarded policy record hclear, fun k hk => .inl (AdminOps.modified_keys env opts policy record ▸ hk)⟩
  refine after_bind_of (Guarded env key s₁) (hwrite s₁) fun _ s₂ h₂ => ?_
  have := hwrite s₁
  rwa [after_of_ok h₂] at this

theorem changedKeys_guarded {a : AdminOps} {name : PrincipalName} {realm : Str} {keepOld : Nat}
    {policy : Option MitPolicy} {policyName : Option Str} {hist : Option (List EncryptionKey × UInt32)}
    {record record' : PrincipalRecord}
    (h : a.changedKeys env name realm none keepOld policy policyName hist record = .ok record') :
    (intersects record.entry.attributes lockdownKeys = true →
      intersects record'.entry.attributes lockdownKeys = true) ∧
    ∀ k ∈ record'.entry.keys, k ∈ record.entry.keys ∨ Drawn env k.key := by
  unfold AdminOps.changedKeys at h
  split at h
  · cases h
  obtain ⟨keys, hkeys, h⟩ := bind_eq_ok.mp h
  cases h
  refine ⟨fun hlocked => ?_, fun k hk => ?_⟩
  · rw [lockdownKeys_eq, Flags.intersects_bit (by decide)] at hlocked ⊢
    rw [Flags.has_remove (by decide), hlocked]
    decide
  · rcases List.mem_append.mp hk with hk | hk
    · exact .inr (randomKeys_drawn hkeys k hk)
    · exact .inl (keptKeys_subset hk)

theorem guarded_changePassword (env : Env) (key : Bytes) (a : AdminOps) (name : PrincipalName) (realm : Str)
    (keepOld : Nat) : Keeps (Guarded env key) (a.changePasswordKeeping env name realm none keepOld) := by
  intro s
  unfold AdminOps.changePasswordKeeping
  split
  · exact .of_kept (KeptAt.refl key s)
  have hrequire := AdminOps.keeps_require name realm s
  refine after_bind_of (Guarded env key s) (.of_kept (hrequire.same.kept key)) fun current s₁ h₁ => ?_
  rw [after_of_ok h₁] at hrequire
  refine .of_reread hrequire ?_
  refine after_checked_bind (Guarded env key s₁) (.of_kept (KeptAt.refl key s₁)) fun policy _ => ?_
  -- without a password there is no history to look up and nothing to check
  have hwrite : Keeps (Guarded env key) (a.updatePrincipal (env.writes 0) name realm
      (a.changedKeys env name realm none keepOld policy current.entry.policy none)) := by
    intro s
    rw [AdminOps.updatePrincipal, AdminOps.after_spawnWrite]
    exact guarded_updatePrincipalAs env key (env.writes 0) name realm a.modifier a.tlData
      (fun record record' h => changedKeys_guarded h) s
  have hnone : a.neededHistory env realm none policy current = pure none := by simp [AdminOps.neededHistory]
  rw [hnone, Stateful.after_pure_bind]
  refine after_checked_bind (Guarded env key s₁) (.of_kept (KeptAt.refl key s₁)) fun _ _ => ?_
  refine after_bind_of (Guarded env key s₁) (hwrite s₁) fun _ s₂ h₂ => ?_
  have := hwrite s₁
  rwa [after_of_ok h₂] at this

/-! ## Requests -/

theorem Guarded.refl (env : Env) (key : Bytes) (s : LmdbStore) : Guarded env key s s := .of_kept (KeptAt.refl key s)

theorem guarded_of_unlocked {α : Type} {m : Txn α}
    (hlock : Kadm5.lockdown env s p = .ok false) (hm : p.key ≠ key → Keeps (KeptAt key) m) :
    Guarded env key s (after m s) := fun e he =>
  Guarded.of_kept (hm (ne_of_unlocked he hlock) s) e he

namespace Kadm5

variable (k : Kadm5) (env : Env) (key : Bytes) (caller : Caller) {args : WriteArgs}

theorem guarded_create (rec : PrincipalEnt) (mask : UInt32) (passwd : Option Str) (ks : List KeySalt) :
    Keeps (Guarded env key) (k.createPrincipal env caller rec mask passwd ks) := by
  intro s
  unfold createPrincipal
  -- a refusal is an answer and writes nothing
  repeat' split
  all_goals try exact .refl env key s
  unfold createWith
  rw [after_coded]
  exact .of_kept (AdminOps.keeps_addPrincipal key _ env _ _ passwd _ s)

theorem guarded_delete (princ : Option Str) : Keeps (Guarded env key) (k.deletePrincipal env caller princ) := by
  intro s
  unfold deletePrincipal
  rw [after_get_bind]
  repeat' split
  all_goals try exact .refl env key s
  rename_i hlock
  rw [after_coded]
  exact guarded_of_unlocked hlock fun hne => AdminOps.keeps_deleteRequired hne env

theorem guarded_rename (src dest : Option Str) : Keeps (Guarded env key) (k.renamePrincipal env caller src dest) := by
  intro s
  unfold renamePrincipal
  rw [after_get_bind]
  repeat' split
  all_goals try exact .refl env key s
  rename_i hlock _
  rw [after_coded]
  exact guarded_of_unlocked hlock fun hne => LmdbStore.keeps_renameRaw hne _ _

theorem guarded_chpass (princ : Option Str) (keepold : Bool) (pass : Option Str) (ks : List KeySalt) :
    Keeps (Guarded env key) (k.chpass env caller princ keepold pass ks) := by
  intro s
  unfold chpass
  rw [after_get_bind]
  split
  · exact .refl env key s
  rename_i p locked hauth
  cases locked with
  | true => exact .refl env key s
  | false =>
    refine guarded_of_unlocked (keychangeAuth_eq_ok hauth) fun hne => ?_
    refine LmdbStore.kept_after_reread (keeps_checkSelfKeychange env caller p) fun c s => ?_
    split
    · exact KeptAt.refl key s
    split
    · exact KeptAt.refl key s
    · exact KeptAt.refl key s
    · rw [chpassWith, after_coded]
      exact AdminOps.keeps_changePasswordKeeping hne _ env _ _ s

theorem guarded_chrandTo (p : Princ) (keepold : Bool) (ks : List KeySalt) :
    Keeps (Guarded env key) (k.chrandTo env caller p keepold ks) := by
  intro s
  have hself := keeps_checkSelfKeychange env caller p s
  refine after_bind_of (Guarded env key s) (.of_kept (hself.same.kept key)) fun c s₁ h₁ => ?_
  rw [after_of_ok h₁] at hself
  refine .of_reread hself ?_
  split
  · exact .refl env key s₁
  split
  · exact .refl env key s₁
  · rename_i admin _
    have hchange := guarded_changePassword env key admin p.name p.realm (clampKeepold caller p keepold) s₁
    refine after_answering (Guarded env key s₁) hchange fun kvno s₂ h₂ => ?_
    rw [after_of_ok h₂] at hchange
    exact hchange.same (keeps_currentKeys p kvno blocksOf s₂).same

theorem guarded_chrand (princ : Option Str) (keepold : Bool) (ks : List KeySalt) :
    Keeps (Guarded env key) (k.chrand env caller princ keepold ks) := by
  intro s
  unfold chrand
  rw [after_get_bind]
  split
  · exact .refl env key s
  rename_i p locked _
  have hto := k.guarded_chrandTo env key caller p keepold ks s
  refine after_bind_of (Guarded env key s) hto fun answer s' h' => ?_
  rwa [after_of_ok h'] at hto

theorem guarded_extract (princ : Option Str) (kvno : UInt32) :
    Keeps (Guarded env key) (k.extractKeys env caller princ kvno) := by
  intro s
  unfold extractKeys
  rw [after_get_bind]
  repeat' split
  all_goals try exact .refl env key s
  exact .of_kept ((keeps_currentKeys _ kvno extracted s).same.kept key)

theorem guarded_setkey (princ : Option Str) (keepold : Bool) (keys : SetKeys) :
    Keeps (Guarded env key) (k.setkey env caller princ keepold keys) := by
  intro s
  unfold setkey
  rw [after_get_bind]
  repeat' split
  all_goals try exact .refl env key s
  rename_i hlock
  exact guarded_of_unlocked hlock fun hne => keeps_setkeyTo env caller hne keepold keys

theorem guarded_purgekeys (princ : Option Str) (keepkvno : Int32) :
    Keeps (Guarded env key) (k.purgekeys env caller princ keepkvno) := by
  intro s
  unfold purgekeys
  repeat' split
  all_goals try exact .refl env key s
  rw [after_coded]
  refine guarded_updateRaw env key _ _ _ (fun raw keys new h => ?_) s
  have hnew := map_some_eq_ok h
  have hedit := setModPrinc_edit hnew
  refine ⟨hedit.attributes, fun d hd => ?_⟩
  rw [hedit.keyData] at hd
  exact List.mem_of_mem_filter hd

theorem guarded_setString (princ name value : Option Str) :
    Keeps (Guarded env key) (k.setString env caller princ name value) := by
  intro s
  unfold setString
  repeat' split
  all_goals try exact .refl env key s
  rw [after_coded]
  refine guarded_updateRaw env key _ _ _ (fun raw keys new h => ?_) s
  have hnew := map_some_eq_ok h
  obtain ⟨e₁, he₁, hnew⟩ := bind_eq_ok.mp hnew
  have hattr := setStringAttr_edit he₁
  have hedit := setModPrinc_edit hnew
  exact ⟨hedit.attributes.trans hattr.attributes, fun d hd => by rwa [hedit.keyData, hattr.keyData] at hd⟩

theorem guarded_alias (name target : Option Str) : Keeps (Guarded env key) (k.createAlias env caller name target) := by
  intro s
  unfold createAlias
  split
  · exact .refl env key s
  · exact .refl env key s
  split
  · exact .refl env key s
  · split
    · exact .refl env key s
    · rw [after_coded]
      exact .of_kept (LmdbStore.kept_after_checked (fun e => LmdbStore.keeps_createRaw key _ e) s)

theorem guarded_modify
    (hchecked : ∀ p restr, k.recName rec = .ok p → p.key = key → k.permitsRestr caller (.modPrinc p) = some restr →
      restrictedUnsets env.now.toInt32 rec mask restr = true → unsetsLockdown rec mask = true) :
    Keeps (Guarded env key) (k.modifyPrincipal env caller rec mask) := by
  intro s
  unfold modifyPrincipal
  rw [after_get_bind]
  split
  · exact .refl env key s
  rename_i p hname
  split
  · exact .refl env key s
  rename_i restr hrestr
  split
  · exact .refl env key s
  split
  · exact .refl env key s
  · rename_i hallowed
    unfold modifyWith
    split
    · exact .refl env key s
    split
    · exact .refl env key s
    · rename_i admin _
      rw [after_coded]
      by_cases hkey : p.key = key
      · cases hunsets : restrictedUnsets env.now.toInt32 rec mask restr with
        | false =>
          exact guarded_modifyPrincipal env key admin p.name p.realm (clear_of_restrictedUnsets hunsets) s
        | true =>
          have hlock := unlocked_of_allowed (Decidable.not_not.mp hallowed)
            (hchecked p restr hname hkey hrestr hunsets)
          exact guarded_of_unlocked hlock fun hne => absurd hkey hne
      · exact .of_kept (AdminOps.keeps_modifyPrincipal hkey admin env _ s)

/-- The restrictions on a modification of the principal unset the attribute only if the request itself asks for it. -/
def UnsetsAsAsked (args : WriteArgs) : Prop :=
  ∀ rec mask p restr, args = .modifyPrincipal rec mask → k.recName rec = .ok p → p.key = key →
    k.permitsRestr caller (.modPrinc p) = some restr → restrictedUnsets env.now.toInt32 rec mask restr = true →
      unsetsLockdown rec mask = true

theorem guarded_handle (hchecked : k.UnsetsAsAsked env key caller args) :
    Keeps (Guarded env key) (k.handle env caller args) := by
  intro s
  cases args with
  | createPrincipal rec mask ks passwd => exact keeps_noKeys (k.guarded_create env key caller rec mask passwd _) s
  | deletePrincipal princ => exact keeps_noKeys (k.guarded_delete env key caller princ) s
  | modifyPrincipal rec mask => exact keeps_noKeys (k.guarded_modify env key caller (fun p restr => hchecked rec mask p restr rfl)) s
  | renamePrincipal src dest => exact keeps_noKeys (k.guarded_rename env key caller src dest) s
  | chpassPrincipal princ keepold ks pass => exact keeps_noKeys (k.guarded_chpass env key caller princ keepold pass ks) s
  | chrandPrincipal princ keepold ks => exact k.guarded_chrand env key caller princ keepold ks s
  | setkeyPrincipal princ keepold keys => exact keeps_noKeys (k.guarded_setkey env key caller princ keepold keys) s
  | purgekeys princ keepkvno => exact keeps_noKeys (k.guarded_purgekeys env key caller princ keepkvno) s
  | setString princ name value => exact keeps_noKeys (k.guarded_setString env key caller princ name value) s
  | extractKeys princ kvno => exact k.guarded_extract env key caller princ kvno s
  | createAlias name target => exact keeps_noKeys (k.guarded_alias env key caller name target) s

theorem guarded_write (api : UInt32) (hchecked : k.UnsetsAsAsked env key caller args) :
    Keeps (Guarded env key) (k.write env caller api args) := by
  intro s
  unfold write
  rw [after_get_bind]
  split
  · exact .refl env key s
  split
  · exact .refl env key s
  · have hhandle := k.guarded_handle env key caller hchecked s
    refine after_bind_of (Guarded env key s) hhandle fun answer s' h' => ?_
    rwa [after_of_ok h'] at hhandle

end Kadm5

end

end Krb5Rs
