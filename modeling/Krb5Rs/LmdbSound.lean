import Krb5Rs.Lmdb
import Krb5Rs.MitCodecSound
import Krb5Rs.TlSound

/-!
# What the klmdb store's operations change

Reads change at most the cached master keys. A write changes the entry of one
principal, and a creation none that was there. A key in an entry that was
written is one the entry held or one of the record written.
-/

namespace Krb5Rs

open Wire (Bytes)
open Utf8 (Str)
open Stateful (after Keeps after_bind after_bind_of after_get_bind after_of_ok bind_eq_ok get_bind)

namespace LmdbStore

/-! ## Checked values -/

variable {s s' : LmdbStore} {key key' : Bytes} {β α : Type} {f : α → Txn β} {realm : Str} {x : Except StoreError α}
  {rest : Txn β}

theorem checked_eq_ok {a : α} (h : checked x s = .ok a s') : x = .ok a ∧ s' = s := by
  cases x with
  | error e => cases h
  | ok b =>
    cases h
    exact ⟨rfl, rfl⟩

theorem after_checked (x : Except StoreError α) (s : LmdbStore) : after (checked x) s = s :=
  Stateful.after_lift _ s

theorem after_checked_bind (P : LmdbStore → Prop)
    (hs : P s) (hf : ∀ a, x = .ok a → P (after (f a) s)) : P (after (checked x >>= f) s) := by
  cases x with
  | error e => exact hs
  | ok a => exact hf a rfl

section
variable [Alphabet]

theorem stored_eq_ok {name : PrincipalName} {raw : MitEntry} (h : stored name realm s = .ok raw s') :
    s' = s ∧ ∃ value, s.principals (unparseName name realm) = some value ∧
      MitEntry.decode (unparseName name realm) value = .ok raw := by
  unfold stored at h
  rw [get_bind] at h
  cases hvalue : s.principals (unparseName name realm) with
  | none =>
    simp only [hvalue] at h
    cases h
  | some value =>
    simp only [hvalue] at h
    obtain ⟨hraw, rfl⟩ := checked_eq_ok h
    exact ⟨rfl, value, rfl, hraw⟩

theorem after_stored (name : PrincipalName) (realm : Str) (s : LmdbStore) : after (stored name realm) s = s := by
  unfold stored
  rw [after_get_bind]
  split
  · rfl
  · exact after_checked _ s

end

theorem vacant_eq_ok (h : vacant key s = .ok () s') : s' = s ∧ s.principals key = none := by
  unfold vacant at h
  rw [get_bind] at h
  split at h
  · cases h
  · rename_i hnone
    obtain ⟨-, rfl⟩ := EStateM.Result.ok.inj h
    exact ⟨rfl, by simpa using hnone⟩

theorem after_vacant (key : Bytes) (s : LmdbStore) : after (vacant key) s = s := by
  unfold vacant
  rw [after_get_bind]
  split <;> rfl

/-! ## The principals stay -/

def SamePrincipals (s s' : LmdbStore) : Prop := s'.principals = s.principals

theorem SamePrincipals.refl (s : LmdbStore) : SamePrincipals s s := rfl

theorem SamePrincipals.trans {a b c : LmdbStore} (hab : SamePrincipals a b) (hbc : SamePrincipals b c) :
    SamePrincipals a c := Eq.trans hbc hab

theorem keeps_appended (u : Ulog) (out : Except Ulog.Fault Iprop.Update × Bytes) :
    Keeps SamePrincipals (appended u out) := by
  intro s
  obtain ⟨r, f⟩ := out
  cases r <;> rfl

theorem keeps_logHeld (now : Time) (update : Iprop.Update) : Keeps SamePrincipals (logHeld now update) := by
  intro s
  unfold logHeld
  rw [after_get_bind]
  split
  · exact SamePrincipals.refl s
  · exact keeps_appended _ _ s

/-! ## Reads -/

section
variable [Alphabet] [Crypto]

/-- The master keys that rereading `K/M` gives, from the cached ones on. -/
inductive Loaded (s : LmdbStore) : MasterKeys → Prop
  | cached : Loaded s s.master
  | reread {km : MitEntry} {loaded keys : MasterKeys} : Loaded s loaded → s.kmEntry = .ok km →
      Krb5Rs.refreshMaster km s.suppliedMaster loaded = .ok keys → Loaded s keys

def Reread (s s' : LmdbStore) : Prop := ∃ keys, Loaded s keys ∧ s' = { s with master := keys }

theorem Reread.refl (s : LmdbStore) : Reread s s := ⟨s.master, .cached, rfl⟩

theorem Reread.loaded {keys : MasterKeys} (h : Reread s s') (hk : Loaded s' keys) : Loaded s keys := by
  obtain ⟨keys', hkeys', rfl⟩ := h
  induction hk with
  | cached => exact hkeys'
  | reread _ hkm hkeys ih => exact ih.reread hkm hkeys

theorem Reread.trans {a b c : LmdbStore} (hab : Reread a b) (hbc : Reread b c) : Reread a c := by
  obtain ⟨keys, hkeys, rfl⟩ := hbc
  refine ⟨keys, hab.loaded hkeys, ?_⟩
  obtain ⟨_, -, rfl⟩ := hab
  rfl

theorem Reread.same (h : Reread s s') : SamePrincipals s s' := by
  obtain ⟨_, -, rfl⟩ := h
  rfl

theorem keeps_refreshMaster : Keeps Reread refreshMaster := by
  intro s
  unfold refreshMaster
  refine after_checked_bind (Reread s) (Reread.refl s) fun km hkm => ?_
  exact after_checked_bind (Reread s) (Reread.refl s) fun keys hkeys => ⟨keys, .reread .cached hkm hkeys, rfl⟩

theorem keeps_refreshFor (kvno : UInt16) : Keeps Reread (refreshFor kvno) := by
  intro s
  unfold refreshFor
  rw [after_get_bind]
  split
  · exact keeps_refreshMaster s
  · exact Reread.refl s

theorem keeps_decode (entry : MitEntry) : Keeps Reread (decode entry) := by
  intro s
  refine after_checked_bind (Reread s) (Reread.refl s) fun kvno _ => ?_
  refine after_bind (R := Reread) (keeps_refreshFor kvno s) Reread.trans fun _ s' _ => ?_
  rw [after_get_bind, after_checked]
  exact Reread.refl s'

theorem keeps_getRecord (name : PrincipalName) (realm : Str) : Keeps Reread (getRecord name realm) := by
  intro s
  unfold getRecord
  refine after_checked_bind (Reread s) (Reread.refl s) fun raw _ => ?_
  cases raw with
  | none => exact Reread.refl s
  | some entry => exact after_bind (R := Reread) (keeps_decode entry s) Reread.trans fun _ s' _ => Reread.refl s'

end

/-! ## Writes -/

def StoredAt [Alphabet] (s : LmdbStore) (key : Bytes) (e : MitEntry) : Prop :=
  ∃ value, s.principals key = some value ∧ MitEntry.decode key value = .ok e

def KeptAt (key : Bytes) (s s' : LmdbStore) : Prop :=
  ∀ value, s.principals key = some value → s'.principals key = some value

theorem KeptAt.refl (key : Bytes) (s : LmdbStore) : KeptAt key s s := fun _ h => h

theorem KeptAt.trans {a b c : LmdbStore} (hab : KeptAt key a b) (hbc : KeptAt key b c) : KeptAt key a c :=
  fun value h => hbc value (hab value h)

theorem SamePrincipals.kept (h : SamePrincipals s s') (key : Bytes) : KeptAt key s s' :=
  fun value hv => by rw [h, hv]

theorem kept_of_update {value : Option Bytes} (hne : key' ≠ key)
    (h : s'.principals = Function.update s.principals key' value) : KeptAt key s s' := by
  intro v hv
  rw [h, Function.update_of_ne hne.symm, hv]

theorem principals_put (key value : Bytes) (h : Keeps SamePrincipals rest) (s : LmdbStore) :
    (after (put key value >>= fun _ => rest) s).principals = Function.update s.principals key (some value) :=
  h { s with principals := Function.update s.principals key (some value) }

theorem kept_put_vacant (key key' value : Bytes) (h : Keeps SamePrincipals rest) :
    Keeps (KeptAt key) (vacant key' >>= fun _ => put key' value >>= fun _ => rest) := by
  intro s
  refine after_bind_of (KeptAt key s) (by rw [after_vacant]; exact KeptAt.refl key s) fun _ s' hs' => ?_
  obtain ⟨rfl, hnone⟩ := vacant_eq_ok hs'
  by_cases hkey : key' = key
  · intro v hv
    rw [← hkey, hnone] at hv
    cases hv
  · exact kept_of_update hkey (principals_put key' value h s')

section
variable [Alphabet]

theorem keeps_createRaw (key : Bytes) (r : Readings) (raw : MitEntry) : Keeps (KeptAt key) (createRaw r raw) := by
  intro s
  refine after_checked_bind (KeptAt key s) (KeptAt.refl key s) fun encoded _ => ?_
  exact kept_put_vacant key encoded.1 encoded.2 (keeps_logHeld _ _) s

variable {s s' : LmdbStore} {e raw new : MitEntry}

theorem getRaw_eq_ok {name : PrincipalName}
    (h : s.getRaw name realm = .ok (some raw)) : StoredAt s (unparseName name realm) raw := by
  unfold getRaw at h
  split at h
  · cases h
  rename_i value hvalue
  cases hd : MitEntry.decode (unparseName name realm) value with
  | error err => simp [hd, Except.map] at h
  | ok e =>
    simp only [hd, Except.map, Except.ok.injEq, Option.some.injEq] at h
    exact ⟨value, hvalue, h ▸ hd⟩

theorem StoredAt.same (h : StoredAt s key e) (hs : SamePrincipals s s') : StoredAt s' key e := by
  obtain ⟨value, hvalue, he⟩ := h
  exact ⟨value, by rw [hs, hvalue], he⟩

theorem StoredAt.kept (h : StoredAt s key e) (hs : KeptAt key s s') : StoredAt s' key e := by
  obtain ⟨value, hvalue, he⟩ := h
  exact ⟨value, hs value hvalue, he⟩

theorem StoredAt.unique {e' : MitEntry} (h : StoredAt s key e) (h' : StoredAt s key e') : e' = e := by
  obtain ⟨value, hvalue, he⟩ := h
  obtain ⟨value', hvalue', he'⟩ := h'
  cases hvalue.symm.trans hvalue'
  exact Except.ok.inj (he'.symm.trans he)

def Replaced (key : Bytes) (new : MitEntry) (s s' : LmdbStore) : Prop :=
  ∃ key' value, new.encode = .ok (key', value) ∧ s'.principals = Function.update s.principals key (some value)

theorem Replaced.kept (h : Replaced key' new s s') (hne : key' ≠ key) : KeptAt key s s' := by
  obtain ⟨_, value, -, hs'⟩ := h
  exact kept_of_update hne hs'

theorem Replaced.storedAt (h : Replaced key new s s')
    (hraw : StoredAt s key raw) : StoredAt s' key (new.readBack raw.principal raw.realm) := by
  obtain ⟨value₀, -, hdecode⟩ := hraw
  obtain ⟨key', value, hencode, hs'⟩ := h
  exact ⟨value, by rw [hs', Function.update_self], decode_encode hencode (parseName_of_decode hdecode)⟩

end

theorem kept_after_checked
    (hf : ∀ a, Keeps (KeptAt key) (f a)) : Keeps (KeptAt key) (checked x >>= f) := fun s =>
  after_checked_bind (KeptAt key s) (KeptAt.refl key s) fun a _ => hf a s

section
variable [Alphabet] [Crypto] {name : PrincipalName} {realm : Str} {key : Bytes}

theorem getRecord_eq_ok {record : PrincipalRecord} (h : getRecord name realm s = .ok (some record) s') :
    ∃ raw, StoredAt s' (unparseName name realm) raw ∧ recordFromEntry raw s'.master = .ok record := by
  unfold getRecord at h
  rw [get_bind] at h
  obtain ⟨raw, s₁, hraw, h⟩ := bind_eq_ok.mp h
  obtain ⟨hraw, rfl⟩ := checked_eq_ok hraw
  cases raw with
  | none => cases h
  | some raw =>
    obtain ⟨record', s₂, hdecode, h⟩ := bind_eq_ok.mp h
    obtain ⟨hrecord, rfl⟩ := EStateM.Result.ok.inj h
    cases hrecord
    have hsame := (keeps_decode raw s₁).same
    rw [after_of_ok hdecode] at hsame
    refine ⟨raw, (getRaw_eq_ok hraw).same hsame, ?_⟩
    obtain ⟨kvno, s₃, hkvno, hdecode⟩ := bind_eq_ok.mp hdecode
    obtain ⟨_, s₄, hrefresh, hdecode⟩ := bind_eq_ok.mp hdecode
    obtain ⟨hrecord, rfl⟩ := checked_eq_ok hdecode
    exact hrecord

theorem kept_after_reread {m : Txn α} (hm : Keeps Reread m)
    (hf : ∀ a, Keeps (KeptAt key) (f a)) : Keeps (KeptAt key) (m >>= f) :=
  Keeps.bind (fun s => (hm s).same.kept key) KeptAt.trans hf

theorem after_read_stored (P : LmdbStore → Prop) {f : LmdbStore → MitEntry → Txn β} (hsame : ∀ s', Reread s s' → P s')
    (hf : ∀ s' raw, Reread s s' → StoredAt s (unparseName name realm) raw → P (after (f s' raw) s')) :
    P (after (refreshMaster >>= fun _ => get >>= fun s => stored name realm >>= fun raw => f s raw) s) := by
  have hrefresh := keeps_refreshMaster s
  refine after_bind_of P (hsame _ hrefresh) fun _ s₁ h₁ => ?_
  rw [after_of_ok h₁] at hrefresh
  rw [after_get_bind]
  refine after_bind_of P (by rw [after_stored]; exact hsame _ hrefresh) fun raw s₂ h₂ => ?_
  obtain ⟨rfl, value, hvalue, hraw⟩ := stored_eq_ok h₂
  exact hf s₂ raw hrefresh ⟨value, by rw [← hrefresh.same, hvalue], hraw⟩

theorem updatePrincipalAs_changes (r : Readings) (name : PrincipalName) (realm : Str) (modifier : Bytes)
    (tl : List TlData) (f : PrincipalRecord → Except StoreError PrincipalRecord) (s : LmdbStore) :
    SamePrincipals s (after (updatePrincipalAs r name realm modifier tl f) s) ∨ ∃ keys raw record record' new,
      Loaded s keys ∧ StoredAt s (unparseName name realm) raw ∧ recordFromEntry raw keys = .ok record ∧
        f record = .ok record' ∧
        merged r raw keys { record' with modTime := some r.modTime, modBy := some modifier } modifier tl = .ok new ∧
        Replaced (unparseName name realm) new s (after (updatePrincipalAs r name realm modifier tl f) s) := by
  let P : LmdbStore → Prop := fun s' => SamePrincipals s s' ∨ ∃ keys raw record record' new,
      Loaded s keys ∧ StoredAt s (unparseName name realm) raw ∧ recordFromEntry raw keys = .ok record ∧
        f record = .ok record' ∧
        merged r raw keys { record' with modTime := some r.modTime, modBy := some modifier } modifier tl = .ok new ∧
        Replaced (unparseName name realm) new s s'
  refine after_read_stored P (fun s' h => .inl h.same) fun s₁ raw h₁ hraw => ?_
  have hsame : P s₁ := .inl h₁.same
  refine after_checked_bind P hsame fun record hrecord => ?_
  refine after_checked_bind P hsame fun record' hrecord' => ?_
  refine after_checked_bind P hsame fun new hnew => ?_
  refine after_checked_bind P hsame fun encoded hencoded => ?_
  have hlog := (keeps_logHeld (r.logged 0) (Iprop.updateFromEntry (some raw) new)).bind SamePrincipals.trans
    fun _ => Stateful.keeps_pure (R := SamePrincipals) SamePrincipals.refl
      { record' with modTime := some r.modTime, modBy := some modifier }
  have hput := principals_put (unparseName name realm) encoded.2 hlog s₁
  rw [h₁.same] at hput
  exact .inr ⟨s₁.master, raw, record, record', new, h₁.loaded .cached, hraw, hrecord, hrecord', hnew, encoded.1,
    encoded.2, hencoded, hput⟩

theorem updateRaw_changes (r : Readings) (name : PrincipalName) (realm : Str)
    (f : MitEntry → MasterKeys → Except StoreError (Option MitEntry)) (s : LmdbStore) :
    SamePrincipals s (after (updateRaw r name realm f) s) ∨ ∃ keys raw new,
      Loaded s keys ∧ StoredAt s (unparseName name realm) raw ∧ f raw keys = .ok (some new) ∧
        Replaced (unparseName name realm) new s (after (updateRaw r name realm f) s) := by
  let P : LmdbStore → Prop := fun s' => SamePrincipals s s' ∨ ∃ keys raw new,
      Loaded s keys ∧ StoredAt s (unparseName name realm) raw ∧ f raw keys = .ok (some new) ∧
        Replaced (unparseName name realm) new s s'
  refine after_read_stored P (fun s' h => .inl h.same) fun s₁ raw h₁ hraw => ?_
  refine after_checked_bind P (.inl h₁.same) fun new hnew => ?_
  cases new with
  | none => exact .inl h₁.same
  | some new =>
    refine after_checked_bind P (.inl h₁.same) fun encoded hencoded => ?_
    have hrefresh : Keeps SamePrincipals (refreshMaster >>= fun _ => pure true) :=
      Stateful.Keeps.bind (fun s => (keeps_refreshMaster s).same) SamePrincipals.trans fun _ => SamePrincipals.refl
    have hlog := (keeps_logHeld (r.logged 0) (Iprop.updateFromEntry (some raw) new)).bind SamePrincipals.trans
      fun _ => hrefresh
    have hput := principals_put (unparseName name realm) encoded.2 hlog s₁
    rw [h₁.same] at hput
    exact .inr ⟨s₁.master, raw, new, h₁.loaded .cached, hraw, hnew, encoded.1, encoded.2, hencoded, hput⟩

/-! ## Frames -/

theorem keeps_createPrincipalAs (key : Bytes) (r : Readings) (entry : PrincipalEntry)
    (lastPwdChange : Option KerberosTime) (modifier : Bytes) (tl : List TlData) :
    Keeps (KeptAt key) (createPrincipalAs r entry lastPwdChange modifier tl) := by
  intro s
  refine after_bind (R := KeptAt key) ((keeps_refreshMaster s).same.kept key) KeptAt.trans fun _ s' _ => ?_
  refine after_checked_bind (KeptAt key s') (KeptAt.refl key s') fun raw _ => ?_
  refine after_checked_bind (KeptAt key s') (KeptAt.refl key s') fun encoded _ => ?_
  exact kept_put_vacant key (unparseName entry.name entry.realm) encoded.2 (keeps_logHeld _ _) s'

theorem keeps_updatePrincipalAs (hne : unparseName name realm ≠ key) (r : Readings) (modifier : Bytes)
    (tl : List TlData) (f : PrincipalRecord → Except StoreError PrincipalRecord) :
    Keeps (KeptAt key) (updatePrincipalAs r name realm modifier tl f) := by
  intro s
  rcases updatePrincipalAs_changes r name realm modifier tl f s with h | ⟨_, _, _, _, _, -, -, -, -, -, h⟩
  · exact h.kept key
  · exact h.kept hne

theorem keeps_updateRaw (hne : unparseName name realm ≠ key) (r : Readings)
    (f : MitEntry → MasterKeys → Except StoreError (Option MitEntry)) :
    Keeps (KeptAt key) (updateRaw r name realm f) := by
  intro s
  rcases updateRaw_changes r name realm f s with h | ⟨_, _, _, -, -, -, h⟩
  · exact h.kept key
  · exact h.kept hne

theorem keeps_renameRaw (hne : unparseName name realm ≠ key) (r : Readings)
    (f : MitEntry → MasterKeys → Except StoreError MitEntry) : Keeps (KeptAt key) (renameRaw r name realm f) := by
  intro s
  refine after_read_stored (KeptAt key s) (fun s' h => h.same.kept key) fun s₁ raw h₁ _ => ?_
  have hkept := h₁.same.kept key
  refine after_checked_bind (KeptAt key s) hkept fun renamed _ => ?_
  refine after_checked_bind (KeptAt key s) hkept fun encoded _ => ?_
  refine after_bind_of (KeptAt key s) (by rw [after_vacant]; exact hkept) fun _ s₂ h₂ => ?_
  obtain ⟨rfl, hnone⟩ := vacant_eq_ok h₂
  have hlog := (keeps_logHeld (r.logged 0) (Iprop.updateFromEntry none renamed)).bind SamePrincipals.trans fun _ =>
    keeps_logHeld (r.logged 1) (.deletion (unparseName name realm))
  have hprincipals := hlog
    { s₂ with
      principals := Function.update (Function.update s₂.principals encoded.1 (some encoded.2))
        (unparseName name realm) none }
  refine hkept.trans (KeptAt.trans (b := { s₂ with
      principals := Function.update s₂.principals encoded.1 (some encoded.2) }) ?_ (kept_of_update hne hprincipals))
  by_cases hkey : encoded.1 = key
  · intro v hv
    rw [← hkey, hnone] at hv
    cases hv
  · exact kept_of_update hkey rfl

end

theorem keeps_deletePrincipal [Alphabet] {name : PrincipalName}
    (hne : unparseName name realm ≠ key) (r : Readings) : Keeps (KeptAt key) (deletePrincipal r name realm) := by
  intro s
  unfold deletePrincipal
  rw [after_get_bind]
  split
  · have hlog : Keeps SamePrincipals (logHeld (r.logged 0) (.deletion (unparseName name realm)) >>= fun _ => pure true) :=
      (keeps_logHeld _ _).bind SamePrincipals.trans fun _ => SamePrincipals.refl
    exact kept_of_update hne
      (hlog { s with principals := Function.update s.principals (unparseName name realm) none })
  · exact KeptAt.refl key s

end LmdbStore

end Krb5Rs
