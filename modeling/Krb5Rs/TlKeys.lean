import Krb5Rs.Tl
import Krb5Rs.OsaXdrSound

/-!
# The keys of a merged entry

Every key of a record becomes key data that says its version, enctype and salt
and decrypts to it under one master key: the version the entry named before
when no key is encrypted afresh, the active one otherwise.
-/

namespace Krb5Rs

open Wire (Bytes bind_eq_ok)
open Utf8 (Str)

variable {keys : MasterKeys} {kvno : UInt16} {now : UInt32}

theorem activeAt_eq_ok {key : EncryptionKey}
    (h : keys.activeAt now = .ok (kvno, key)) : keys.findActkvno now = some kvno ∧ keys.get kvno = some key := by
  unfold MasterKeys.activeAt at h
  split at h
  · cases h
  rename_i v hv
  split at h
  · cases h
  · rename_i k hk
    cases h
    exact ⟨hv, hk⟩

section
variable [Alphabet]

/-! ## Salts -/

def effectiveSalt (name : PrincipalName) (realm : Str) (salt : Option Bytes) : Bytes :=
  salt.getD (saltBytes name realm .normal)

def storedSalt (name : PrincipalName) (realm : Str) (salt : Option Bytes) : Option Bytes :=
  if salt = some (saltBytes name realm .normal) then none else salt

theorem effectiveSalt_storedSalt (name : PrincipalName) (realm : Str) (salt : Option Bytes) :
    effectiveSalt name realm (storedSalt name realm salt) = effectiveSalt name realm salt := by
  unfold storedSalt
  split
  · rename_i h
    simp [effectiveSalt, h]
  · rfl

theorem keySaltFromData_keyDataWithSalt (kvno : UInt16) (etype : Int16) (blob : Bytes) (salt : Option Bytes)
    (name : PrincipalName) (realm : Str) :
    keySaltFromData (keyDataWithSalt kvno etype blob salt name realm) name realm =
      .ok (storedSalt name realm salt) := by
  cases salt with
  | none => rfl
  | some salt =>
    simp only [keyDataWithSalt, storedSalt, Option.some.injEq]
    by_cases hn : salt = saltBytes name realm .normal
    · simp only [if_pos hn]
      rfl
    simp only [if_neg hn]
    by_cases hr : salt = saltBytes name realm .noRealm
    · simp only [if_pos hr]
      rw [hr]
      rfl
    · simp only [if_neg hr]
      by_cases ho : salt = saltBytes name realm .onlyRealm
      · simp only [if_pos ho]
        rw [ho]
        rfl
      · simp only [if_neg ho]
        rfl

/-! ## Wrapped keys -/

variable [Crypto]

structure Wraps (master : EncryptionKey) (name : PrincipalName) (realm : Str) (data : KeyData) (key : KeyEntry) :
    Prop where
  kvno : data.kvno.toUInt32 = key.kvno
  wrapped : ∃ etype blob fields, data.fields = (etype, blob) :: fields ∧ etype.toInt32 = key.key.keytype ∧
    decryptKey master key.key.keytype blob = .ok key.key
  salt : ∃ s, keySaltFromData data name realm = .ok s ∧ effectiveSalt name realm s = effectiveSalt name realm key.salt

variable {master old : EncryptionKey} {entry : PrincipalEntry} {key : KeyEntry} {confounder : Bytes}

theorem wraps_of_keyDataFromEntry {data : KeyData} (h : keyDataFromEntry confounder entry key master = .ok data) :
    Wraps master entry.name entry.realm data key := by
  unfold keyDataFromEntry at h
  split at h
  case isTrue => cases h
  case isFalse hkvno =>
    split at h
    case isTrue => cases h
    case isFalse hetype =>
      obtain ⟨blob, hblob, h⟩ := bind_eq_ok.mp h
      cases h
      have hdec := decryptKey_encryptKey hblob key.key.keytype
      have htype := toInt32_toInt16 (Decidable.not_not.mp hetype)
      have hv : key.kvno.toUInt16.toUInt32 = key.kvno := by
        apply UInt32.toNat_inj.mp
        simp
        omega
      refine ⟨?_, ?_, ?_⟩
      · unfold keyDataWithSalt
        split
        · exact hv
        · split <;> exact hv
      · unfold keyDataWithSalt
        split
        · exact ⟨_, _, _, rfl, htype, hdec⟩
        · split <;> exact ⟨_, _, _, rfl, htype, hdec⟩
      · exact ⟨_, keySaltFromData_keyDataWithSalt .., effectiveSalt_storedSalt ..⟩

theorem wraps_of_reusable {old : KeyData}
    (hkvno : key.kvno.toNat < 2 ^ 16) (h : reusableKeyData old key entry master = true) :
    Wraps master entry.name entry.realm old key := by
  unfold reusableKeyData at h
  split at h
  case h_2 => cases h
  case h_1 etype blob fields salt hfields hsalt =>
    simp only [if_pos hkvno] at h
    split at h
    case isTrue => cases h
    case isFalse hsame =>
      simp only [not_or, Decidable.not_not] at hsame
      obtain ⟨hv, htype, hs⟩ := hsame
      split at h
      case h_2 => cases h
      case h_1 decoded hdec =>
        have hkey : decoded = key.key := by
          have htypes := decryptKey_keytype hdec
          cases decoded
          simp_all
        refine ⟨?_, ⟨etype, blob, fields, hfields, htype, hkey ▸ hdec⟩, ⟨salt, hsalt, by rw [hs]⟩⟩
        rw [hv]
        apply UInt32.toNat_inj.mp
        simp
        omega

theorem Wraps.rewrap {new : EncryptionKey} {name : PrincipalName} {realm : Str}
    {data data' : KeyData} (hw : Wraps old name realm data key)
    (h : rewrapKeyData confounder data old new = .ok data') : Wraps new name realm data' key := by
  obtain ⟨etype, blob, fields, hfields, htype, hdec⟩ := hw.wrapped
  unfold rewrapKeyData at h
  rw [hfields] at h
  simp only [htype, bind_eq_ok] at h
  obtain ⟨key', hkey', blob', hblob', h⟩ := h
  cases hdec.symm.trans hkey'
  cases h
  refine ⟨hw.kvno, ⟨etype, blob', fields, rfl, htype, decryptKey_encryptKey hblob' _⟩, ?_⟩
  obtain ⟨s, hs, heff⟩ := hw.salt
  refine ⟨s, ?_, heff⟩
  rw [← hs]
  unfold keySaltFromData
  simp only [hfields, List.getElem?_cons_succ]

/-! ## Updating the keys -/

section
variable {name : PrincipalName} {realm : Str}

/-- Retained key data is wrapped by the old master key, the rest by the active one. -/
def Updated (name : PrincipalName) (realm : Str) (oldMaster : Option EncryptionKey) (active : EncryptionKey)
    (p : KeyData × Bool) (key : KeyEntry) : Prop :=
  if p.2 then ∃ old, oldMaster = some old ∧ Wraps old name realm p.1 key else Wraps active name realm p.1 key

theorem found_reusable {remaining : List KeyData}
    {old : KeyData} (h : reused remaining key entry (some master) = some old) :
    reusableKeyData old key entry master = true := by
  have := List.find?_some h
  exact this

variable {active : EncryptionKey} {draw : Nat → Bytes}

theorem keyDataFor_updated {oldMaster : Option EncryptionKey} :
    ∀ {keys : List KeyEntry} {draw : Nat → Bytes} {remaining : List KeyData} {updated : List (KeyData × Bool)},
      (∀ key ∈ keys, key.kvno.toNat < 2 ^ 16) →
      keyDataFor entry oldMaster active draw remaining keys = .ok updated →
      List.Forall₂ (Updated entry.name entry.realm oldMaster active) updated keys := by
  intro keys
  induction keys with
  | nil =>
    intro draw remaining updated _ h
    cases h
    exact .nil
  | cons key keys ih =>
    intro draw remaining updated hk h
    have hkey := hk key (List.mem_cons_self ..)
    have hkeys := fun k hm => hk k (List.mem_cons_of_mem _ hm)
    rw [keyDataFor] at h
    cases hr : reused remaining key entry oldMaster with
    | some old =>
      simp only [hr, bind_eq_ok] at h
      obtain ⟨rest, hrest, h⟩ := h
      cases h
      refine .cons ?_ (ih hkeys hrest)
      cases oldMaster with
      | none => cases hr
      | some master => exact ⟨master, rfl, wraps_of_reusable hkey (found_reusable hr)⟩
    | none =>
      simp only [hr, bind_eq_ok] at h
      obtain ⟨data, hdata, rest, hrest, h⟩ := h
      cases h
      exact .cons (wraps_of_keyDataFromEntry hdata) (ih hkeys hrest)

/-- No key is encrypted afresh: each finds key data of its own among what is left. -/
def allReused (entry : PrincipalEntry) (oldMaster : Option EncryptionKey) : List KeyData → List KeyEntry → Bool
  | _, [] => true
  | remaining, key :: keys =>
    match reused remaining key entry oldMaster with
    | some old => allReused entry oldMaster (remaining.erase old) keys
    | none => false

theorem keyDataFor_afresh {oldMaster : Option EncryptionKey} :
    ∀ {keys : List KeyEntry} {draw : Nat → Bytes} {remaining : List KeyData} {updated : List (KeyData × Bool)},
      keyDataFor entry oldMaster active draw remaining keys = .ok updated →
      (updated.any fun p => !p.2) = !allReused entry oldMaster remaining keys := by
  intro keys
  induction keys with
  | nil =>
    intro draw remaining updated h
    cases h
    rfl
  | cons key keys ih =>
    intro draw remaining updated h
    rw [keyDataFor] at h
    cases hr : reused remaining key entry oldMaster with
    | some old =>
      simp only [hr, bind_eq_ok] at h
      obtain ⟨rest, hrest, h⟩ := h
      cases h
      simpa [allReused, hr] using ih hrest
    | none =>
      simp only [hr, bind_eq_ok] at h
      obtain ⟨data, -, rest, -, h⟩ := h
      cases h
      simp [allReused, hr]

theorem rewrapRetained_wraps :
    ∀ {updated : List (KeyData × Bool)} {keys : List KeyEntry} {draw : Nat → Bytes} {keyData : List KeyData},
      List.Forall₂ (Updated name realm (some old) active) updated keys →
      rewrapRetained old active draw updated = .ok keyData →
      List.Forall₂ (Wraps active name realm) keyData keys := by
  intro updated
  induction updated with
  | nil =>
    intro keys draw keyData hu h
    cases hu
    cases h
    exact .nil
  | cons p updated ih =>
    intro keys draw keyData hu h
    obtain ⟨data, retained⟩ := p
    cases hu with
    | cons hp hu =>
      simp only [rewrapRetained, bind_eq_ok] at h
      obtain ⟨data', hdata, rest, hrest, h⟩ := h
      cases h
      refine .cons ?_ (ih hu hrest)
      cases retained with
      | true =>
        obtain ⟨old', hold, hw⟩ := hp
        cases hold
        exact hw.rewrap hdata
      | false =>
        cases hdata
        exact hp

/-- Every key of the record keeps the ciphertext the entry holds for it. -/
def keysReused (keys : MasterKeys) (entry : MitEntry) (record : PrincipalRecord) : Bool :=
  match entryMkvno entry with
  | .ok kvno => allReused record.entry (keys.get kvno) entry.keyData record.entry.keys
  | .error _ => false

/-- The keys `keyData` holds are `entries`, under the master key of version `kvno`. -/
def WrappedUnder (keys : MasterKeys) (name : PrincipalName) (realm : Str) (kvno : UInt16) (keyData : List KeyData)
    (entries : List KeyEntry) : Prop :=
  List.Forall₂ (fun data key => ∃ master, keys.get kvno = some master ∧ Wraps master name realm data key) keyData
    entries

/-- What `updateKeys` does: all keys are wrapped by the active version, or all by the old one. -/
structure KeysUpdated (now : UInt32) (entry : MitEntry) (record : PrincipalRecord) (keys : MasterKeys)
    (entry' : MitEntry) (reencrypted : Bool) : Prop where
  same : { entry' with keyData := entry.keyData } = entry
  afresh : reencrypted = !keysReused keys entry record
  wrapped : ∃ kvno,
    (if reencrypted then keys.findActkvno now = some kvno else entryMkvno entry = .ok kvno) ∧
    WrappedUnder keys record.entry.name record.entry.realm kvno entry'.keyData record.entry.keys

theorem rewrapChanged_wraps {old : UInt16}
    {updated : List (KeyData × Bool)} {keyData : List KeyData} {entries : List KeyEntry}
    (hget : keys.get kvno = some active)
    (hall : List.Forall₂ (Updated name realm (keys.get old) active) updated entries)
    (h : rewrapChanged (old ≠ kvno) (keys.get old) active draw updated = .ok keyData) :
    List.Forall₂ (Wraps active name realm) keyData entries := by
  cases hm : keys.get old with
  | none =>
    rw [hm] at h hall
    have h : Except.ok (updated.map (·.1)) = (Except.ok keyData : Except StoreError _) := by
      rw [← h]
      cases decide (old ≠ kvno) <;> rfl
    cases h
    refine List.forall₂_map_left_iff.mpr (hall.imp ?_)
    intro p key hp
    unfold Updated at hp
    split at hp
    · obtain ⟨_, hnone, -⟩ := hp
      cases hnone
    · exact hp
  | some master =>
    rw [hm] at h hall
    by_cases hne : old = kvno
    · subst hne
      cases hm.symm.trans hget
      simp only [rewrapChanged, ne_eq, not_true_eq_false, decide_false] at h
      cases h
      refine List.forall₂_map_left_iff.mpr (hall.imp ?_)
      intro p key hp
      unfold Updated at hp
      split at hp
      · obtain ⟨_, hsome, hw⟩ := hp
        exact Option.some.inj hsome ▸ hw
      · exact hp
    · simp only [rewrapChanged, ne_eq, hne, not_false_eq_true, decide_true] at h
      exact rewrapRetained_wraps hall h

theorem updateKeys_spec {entry entry' : MitEntry} {record : PrincipalRecord}
    {reencrypted : Bool} (hk : ∀ key ∈ record.entry.keys, key.kvno.toNat < 2 ^ 16)
    (h : updateKeys now draw entry record keys = .ok (entry', reencrypted)) :
    KeysUpdated now entry record keys entry' reencrypted := by
  simp only [updateKeys, bind_eq_ok] at h
  obtain ⟨⟨activeKvno, active⟩, hactive, oldMkvno, hold, updated, hupdated, keyData, hdata, h⟩ := h
  cases h
  obtain ⟨hfind, hget⟩ := activeAt_eq_ok hactive
  have hall := keyDataFor_updated hk hupdated
  refine ⟨rfl, by simp only [keysReused, hold, keyDataFor_afresh hupdated], ?_⟩
  by_cases hre : (updated.any fun p => !p.2) = true
  · rw [hre, Bool.true_and] at hdata
    refine ⟨activeKvno, by simp [hre, hfind], ?_⟩
    exact (rewrapChanged_wraps hget hall hdata).imp fun _ _ hw => ⟨active, hget, hw⟩
  · have hretained : ∀ p ∈ updated, p.2 = true := by
      intro p hp
      by_contra hf
      exact hre (List.any_eq_true.mpr ⟨p, hp, by simpa using hf⟩)
    rw [Bool.not_eq_true] at hre
    rw [hre, Bool.false_and] at hdata
    cases hdata
    refine ⟨oldMkvno, by simp [hre, hold], ?_⟩
    refine List.forall₂_map_left_iff.mpr (((List.forall₂_and_left _ _).mpr ⟨hretained, hall⟩).imp ?_)
    intro p key hp
    have hw := hp.2
    rw [Updated, if_pos hp.1] at hw
    exact hw

end

end

end Krb5Rs
