import Krb5Rs.TlKeys
import Krb5Rs.TlFields

/-!
# Merging a record and reading it back

What a merge leaves in the entry: every key wrapped by one master key version,
and every field in the place its reader looks at.
-/

namespace Krb5Rs

open Wire (Bytes bind_eq_ok)
open Utf8 (Str)

variable {keys : MasterKeys} {clock : Clock} {time : Option KerberosTime} {creator : Option Bytes} {v : UInt32}

section
variable [Alphabet] {e : MitEntry}

theorem recordMkvno_spec {now : UInt32} {e' : MitEntry} {reencrypted : Bool}
    (h : recordMkvno now e keys reencrypted = .ok e') : TlEdit mkvno e e' ∧ ∃ v, entryMkvno e' = .ok v ∧
      (if reencrypted then keys.findActkvno now = some v ∧ (keys.get v).isSome else entryMkvno e = .ok v) := by
  cases reencrypted with
  | true =>
    obtain ⟨⟨v, master⟩, hactive, h⟩ := bind_eq_ok.mp h
    cases h
    obtain ⟨hfind, hget⟩ := activeAt_eq_ok hactive
    exact ⟨setTl_edit .., v, entryMkvno_setTl .., hfind, by rw [hget]; rfl⟩
  | false =>
    obtain ⟨v, hv, h⟩ := bind_eq_ok.mp h
    cases h
    exact ⟨TlEdit.refl _ _, v, hv, hv⟩

variable [Crypto] {record : PrincipalRecord} {w v : UInt16}

/-- No key is encrypted afresh, or the same version is active at both readings of the clock. -/
def OneVersion (clock : Clock) (e : MitEntry) (record : PrincipalRecord) (keys : MasterKeys) : Prop :=
  keysReused keys e record ∨ keys.findActkvno clock.wrapped = keys.findActkvno clock.recorded

/-- The version that wraps and the version recorded: both as before, or each as active at its reading. -/
def VersionsOf (clock : Clock) (e : MitEntry) (record : PrincipalRecord) (keys : MasterKeys)
    (wrapping recorded : UInt16) : Prop :=
  if keysReused keys e record then wrapping = recorded ∧ entryMkvno e = .ok recorded
  else keys.findActkvno clock.wrapped = some wrapping ∧ keys.findActkvno clock.recorded = some recorded ∧
    (keys.get recorded).isSome

theorem VersionsOf.eq (h : VersionsOf clock e record keys w v) (hone : OneVersion clock e record keys) : w = v := by
  unfold VersionsOf at h
  split at h
  case isTrue => exact h.1
  case isFalse hreused =>
    have hclock := hone.resolve_left hreused
    exact Option.some.inj (h.1.symm.trans (hclock.trans h.2.1))

theorem VersionsOf.ne (h : VersionsOf clock e record keys w v) (hone : ¬ OneVersion clock e record keys) :
    keys.findActkvno clock.wrapped = some w ∧ keys.findActkvno clock.recorded = some v ∧ w ≠ v := by
  obtain ⟨hreused, hclock⟩ := not_or.mp hone
  rw [VersionsOf, if_neg hreused] at h
  obtain ⟨hw, hv, -⟩ := h
  refine ⟨hw, hv, ?_⟩
  rintro rfl
  exact hclock (hw.trans hv.symm)

theorem mergeRecord_spec {draw : Nat → Bytes} {merged : MitEntry}
    (hk : ∀ key ∈ record.entry.keys, key.kvno.toNat < 2 ^ 16)
    (h : mergeRecord clock draw e record keys creator = .ok merged) :
    FieldsMerged clock e record creator merged ∧ ∃ w v, VersionsOf clock e record keys w v ∧
      entryMkvno merged = .ok v ∧
      WrappedUnder keys merged.principal merged.realm w merged.keyData record.entry.keys := by
  obtain ⟨e₁, hfields, h⟩ := bind_eq_ok.mp h
  obtain ⟨⟨e₂, reencrypted⟩, hkeys, h⟩ := bind_eq_ok.mp h
  obtain ⟨hmerged, hframe⟩ := mergeFields_spec hfields
  obtain ⟨hsame, hafresh, w, hw, hwraps⟩ := updateKeys_spec hk hkeys
  obtain ⟨hedit, v, hv, hversion⟩ := recordMkvno_spec h
  have hall := hmerged.of_edit hsame hedit
  have hdata : merged.keyData = e₂.keyData := by rw [← hedit.same]
  refine ⟨hall, w, v, ?_, hv, by rw [hdata, hall.name, hall.realm]; exact hwraps⟩
  have hmkvno : entryMkvno e₁ = entryMkvno e := by
    rw [entryMkvno, entryMkvno, hframe.tl (by decide)]
  have hreused : keysReused keys e record = !reencrypted := by
    rw [hafresh, Bool.not_not, keysReused, keysReused, hmkvno, hframe.keyData]
  rw [VersionsOf, hreused]
  cases reencrypted with
  | true => exact ⟨hw, hversion⟩
  | false =>
    have htl : e₂.tl mkvno = e₁.tl mkvno := by rw [← hsame]; rfl
    have h₁ : entryMkvno e₁ = .ok v := by
      rw [← hversion, entryMkvno, entryMkvno, htl]
    exact ⟨Except.ok.inj (hw.symm.trans h₁), hmkvno.symm.trans h₁⟩

/-! ## Keys -/

/-- The keys of the merged entry are the record's, under the master key its `MKVNO` names; where a key is encrypted
afresh while another version becomes active, they are under the version active before. -/
theorem merged_keys_wrapped {clock : Clock} {draw : Nat → Bytes} {e merged : MitEntry} {record : PrincipalRecord}
    {keys : MasterKeys} {creator : Option Bytes} (hk : ∀ key ∈ record.entry.keys, key.kvno.toNat < 2 ^ 16)
    (h : mergeRecord clock draw e record keys creator = .ok merged) :
    (OneVersion clock e record keys → ∃ v, entryMkvno merged = .ok v ∧
      WrappedUnder keys merged.principal merged.realm v merged.keyData record.entry.keys) ∧
    (¬ OneVersion clock e record keys → ∃ w v, keys.findActkvno clock.wrapped = some w ∧
      keys.findActkvno clock.recorded = some v ∧ w ≠ v ∧ entryMkvno merged = .ok v ∧
      WrappedUnder keys merged.principal merged.realm w merged.keyData record.entry.keys) := by
  obtain ⟨-, w, v, hversions, hv, hwraps⟩ := mergeRecord_spec hk h
  constructor
  · intro hone
    obtain rfl := hversions.eq hone
    exact ⟨w, hv, hwraps⟩
  · intro hone
    obtain ⟨hwrapping, hrecorded, hne⟩ := hversions.ne hone
    exact ⟨w, v, hwrapping, hrecorded, hne, hv, hwraps⟩

end

section
attribute [local instance] Alphabet.ascii Crypto.toy

def freshEntry : MitEntry where
  principal := ⟨1, [⟨[97], rfl⟩]⟩
  realm := ⟨[75], rfl⟩

def freshRecord : PrincipalRecord where
  entry :=
    { name := ⟨1, [⟨[97], rfl⟩]⟩
      realm := ⟨[75], rfl⟩
      attributes := 128
      keys := [⟨1, ⟨18, [7]⟩, none, none⟩] }

def twoVersions : MasterKeys := ⟨[(2, ⟨18, [2]⟩), (1, ⟨18, [1]⟩)], [⟨1, 0⟩, ⟨2, 100⟩]⟩

def mergedEntry (recorded wrapping : UInt8) : MitEntry :=
  { freshEntry with
    attributes := 128, tlData := [⟨mkvno, [recorded, 0]⟩], keyData := [⟨1, 1, [(18, [1, 0, wrapping, 7])]⟩] }

theorem freshRecord_keys_wrapped :
    ∃ merged v, mergeRecord ⟨0, 100, 101⟩ (fun _ => []) freshEntry freshRecord twoVersions none = .ok merged ∧
      entryMkvno merged = .ok v ∧
      WrappedUnder twoVersions merged.principal merged.realm v merged.keyData freshRecord.entry.keys := by
  have hmerge : mergeRecord ⟨0, 100, 101⟩ (fun _ => []) freshEntry freshRecord twoVersions none =
      .ok (mergedEntry 2 2) := by
    decide +kernel
  obtain ⟨v, hv, hkeys⟩ := (merged_keys_wrapped (by decide) hmerge).1 (.inr (by decide))
  exact ⟨_, v, hmerge, hv, hkeys⟩

/-- Version 2 becomes active between the two readings of the clock. -/
theorem freshRecord_wrapped_by_other_version :
    ∃ merged, mergeRecord ⟨0, 99, 100⟩ (fun _ => []) freshEntry freshRecord twoVersions none = .ok merged ∧
      ¬ ∃ v, entryMkvno merged = .ok v ∧
        WrappedUnder twoVersions merged.principal merged.realm v merged.keyData freshRecord.entry.keys := by
  refine ⟨mergedEntry 2 1, by decide +kernel, ?_⟩
  rintro ⟨v, hv, hkeys⟩
  have hmkvno : entryMkvno (mergedEntry 2 1) = .ok 2 := by decide +kernel
  cases hmkvno.symm.trans hv
  cases hkeys with
  | cons hkey _ =>
    obtain ⟨master, hmaster, hwraps⟩ := hkey
    obtain rfl : ⟨18, [2]⟩ = master := Option.some.inj hmaster
    obtain ⟨etype, blob, fields, hfields, -, hdec⟩ := hwraps.wrapped
    obtain ⟨hfield, -⟩ := List.cons.inj hfields
    obtain ⟨-, rfl⟩ := Prod.mk.inj hfield
    cases hdec

end

/-! ## Reading a merged entry -/

def storedTime (time : Option KerberosTime) : Option KerberosTime :=
  (time.filter fun t => t.seconds ≠ 0).map fun t => kerberosTime t.seconds

def storedDuration (d : Option Duration) : Option Duration :=
  (d.filter fun d => d.secs ≠ 0).map fun d => ⟨d.secs, 0⟩

theorem fromTimestamp_timestamp (h : timestamp time = .ok v) : fromTimestamp v = storedTime time := by
  cases time with
  | none =>
    cases h
    rfl
  | some time =>
    simp only [timestamp] at h
    split at h
    · rename_i hr
      cases h
      have hnat : ((UInt32.ofInt time.seconds).toNat : Int) = time.seconds := by
        simp [UInt32.ofInt]
        omega
      have hzero : UInt32.ofInt time.seconds = 0 ↔ time.seconds = 0 := by
        rw [← UInt32.toNat_inj]
        simp
        omega
      by_cases hs : time.seconds = 0
      · rw [fromTimestamp, if_neg (not_not.mpr (hzero.mpr hs))]
        simp [storedTime, Option.filter, hs]
      · simp [fromTimestamp, storedTime, Option.filter, hzero, hs, hnat]
    · cases h

theorem fromDuration_duration {d : Option Duration} (h : duration d = .ok v) : fromDuration v = storedDuration d := by
  cases d with
  | none =>
    cases h
    rfl
  | some d =>
    simp only [duration] at h
    split at h
    · rename_i hr
      cases h
      have hnat : (UInt32.ofNat d.secs).toNat = d.secs := by
        simp
        omega
      have hzero : UInt32.ofNat d.secs = 0 ↔ d.secs = 0 := by
        rw [← UInt32.toNat_inj, hnat]
        rfl
      by_cases hs : d.secs = 0
      · simp [fromDuration, storedDuration, Option.filter, hs]
      · simp [fromDuration, storedDuration, Option.filter, hzero, hs, hnat]
    · cases h

theorem drop_stamped (seconds : UInt32) (rest : Bytes) : (Codec.u32 seconds ++ rest).drop 4 = rest :=
  List.drop_left' (Codec.u32_length _)

section
variable [Alphabet] {e : MitEntry} {p : PrincipalName × Str} {master : EncryptionKey} {seconds : UInt32}
  {name : Bytes}

theorem getU32Tl_stampData {kind : UInt16} (h : stampData time = .ok (e.tl kind)) : ∃ v, getU32Tl e kind = .ok v ∧
      v.map (fun t => kerberosTime t.toNat) = time.map fun t => kerberosTime t.seconds := by
  cases time with
  | none =>
    have htl := (Except.ok.inj h).symm
    exact ⟨none, by rw [getU32Tl, htl], rfl⟩
  | some time =>
    obtain ⟨v, hv, h⟩ := bind_eq_ok.mp h
    have htl := (Except.ok.inj h).symm
    refine ⟨some v, by simp [getU32Tl, htl], ?_⟩
    simp only [timestamp] at hv
    split at hv
    · rename_i hr
      cases hv
      simp [kerberosTime, UInt32.ofInt]
      omega
    · cases hv

/-! ## The modifier -/

def modifierAfter (e : MitEntry) (record : PrincipalRecord) (creator : Option Bytes) : Option Bytes :=
  let existing := (e.tl modPrinc).map fun bytes => (bytes.drop 4).dropLast
  if record.modTime = none ∧ creator = none then existing else record.modBy <|> existing <|> creator

/-- The modifier can be read back as a principal. -/
structure ReadableModifier (e : MitEntry) (record : PrincipalRecord) (creator : Option Bytes) : Prop where
  parses : ∀ name ∈ modifierAfter e record creator, ∃ p, parseName name = .ok p
  formed : record.modTime = none → creator = none → ∀ bytes ∈ e.tl modPrinc, ¬ malformedModPrinc bytes

theorem zero_notMem_of_parseName (h : parseName name = .ok p) : (0 : UInt8) ∉ name := by
  intro hz
  rw [parseName, parseNameInner, if_pos hz] at h
  cases h

theorem modified_of_formed {bytes : Bytes} (htl : e.tl modPrinc = some bytes) (hf : ¬ malformedModPrinc bytes)
    (hp : parseName (bytes.drop 4).dropLast = .ok p) : ∃ m, modified e = .ok m := by
  have hdata : modPrincipalData e = .ok (some (ofU32 (bytes.take 4), (bytes.drop 4).dropLast)) := by
    simp [modPrincipalData, htl, hf]
  rw [modified, hdata]
  simp only [bind, Except.bind, hp]
  exact ⟨_, rfl⟩

theorem modified_of_stamped
    (htl : e.tl modPrinc = some (Codec.u32 seconds ++ name ++ [0])) (hp : parseName name = .ok p) :
    ∃ m, modified e = .ok m := by
  have hdrop : ((Codec.u32 seconds ++ name ++ [0]).drop 4).dropLast = name := by
    simp
  apply modified_of_formed htl
  · simp only [malformedModPrinc, hdrop, not_or]
    exact ⟨by simp; omega, by simp, zero_notMem_of_parseName hp⟩
  · rw [hdrop, hp]

theorem modified_of_restamped {existing : Bytes}
    (htl : e.tl modPrinc = some (Codec.u32 seconds ++ existing.drop 4)) (hf : ¬ malformedModPrinc existing)
    (hp : parseName (existing.drop 4).dropLast = .ok p) : ∃ m, modified e = .ok m := by
  simp only [malformedModPrinc, not_or, Nat.not_lt, Decidable.not_not] at hf
  obtain ⟨hlen, hlast, hnul⟩ := hf
  have hrest : (existing.drop 4).getLast? = some 0 := by
    rw [List.getLast?_drop, if_neg (by omega), hlast]
  apply modified_of_formed htl
  · simp only [malformedModPrinc, drop_stamped, not_or, Nat.not_lt, Decidable.not_not]
    refine ⟨?_, ?_, hnul⟩
    · simp
      omega
    · rw [List.getLast?_append, hrest]
      rfl
  · rw [drop_stamped, hp]

theorem FieldsMerged.modified {e' : MitEntry} {record : PrincipalRecord} (hm : FieldsMerged clock e record creator e')
    (hr : ReadableModifier e record creator) : ∃ m, modified e' = .ok m := by
  obtain ⟨hparse, hformed⟩ := hr
  unfold modifierAfter at hparse
  cases hs : stampOf clock.modified record.modTime creator with
  | none =>
    have hnone : record.modTime = none ∧ creator = none := by
      unfold stampOf at hs
      cases ht : record.modTime <;> cases hc : creator <;> simp_all
    have htl := hm.unstamped hs
    simp only [if_pos hnone] at hparse
    cases hold : e.tl modPrinc with
    | none => exact ⟨(none, none), by simp [Krb5Rs.modified, modPrincipalData, htl, hold, bind, Except.bind]⟩
    | some bytes =>
      obtain ⟨p, hp⟩ := hparse _ (by rw [hold]; rfl)
      exact modified_of_formed (htl.trans hold) (hformed hnone.1 hnone.2 bytes hold) hp
  | some t =>
    have hsome : ¬ (record.modTime = none ∧ creator = none) := by
      rintro ⟨ht, hc⟩
      rw [ht, hc] at hs
      cases hs
    obtain ⟨bytes, hbytes, htl⟩ := hm.stamped t hs
    simp only [if_neg hsome] at hparse
    unfold modPrincData at hbytes
    cases hold : e.tl modPrinc with
    | some existing =>
      simp only [hold] at hbytes hparse
      split at hbytes
      · cases hbytes
      rename_i hf
      cases hby : record.modBy with
      | none =>
        rw [hby] at hbytes hparse
        obtain ⟨p, hp⟩ := hparse _ rfl
        cases hbytes
        exact modified_of_restamped htl hf hp
      | some modBy =>
        rw [hby] at hbytes hparse
        obtain ⟨p, hp⟩ := hparse _ rfl
        rw [restampModPrinc, if_neg (zero_notMem_of_parseName hp)] at hbytes
        cases hbytes
        exact modified_of_stamped htl hp
    | none =>
      simp only [hold] at hbytes hparse
      have hparse : ∀ name ∈ (record.modBy <|> creator), ∃ p, parseName name = .ok p := hparse
      cases hc : (record.modBy <|> creator) with
      | none =>
        rw [hc] at hbytes
        cases hbytes
      | some name =>
        rw [hc] at hbytes
        obtain ⟨p, hp⟩ := hparse name hc
        cases hbytes
        exact modified_of_stamped htl hp

/-! ## The whole record -/

structure SameKey (name : PrincipalName) (realm : Str) (read key : KeyEntry) : Prop where
  kvno : read.kvno = key.kvno
  same : read.key = key.key
  salt : effectiveSalt name realm read.salt = effectiveSalt name realm key.salt

/-- `read` is `record` as an MIT entry keeps it. -/
structure StoredAs (record read : PrincipalRecord) : Prop where
  name : read.entry.name = record.entry.name
  realm : read.entry.realm = record.entry.realm
  attributes : read.entry.attributes = record.entry.attributes
  maxLife : read.entry.maxLife = storedDuration record.entry.maxLife
  maxRenewableLife : read.entry.maxRenewableLife = storedDuration record.entry.maxRenewableLife
  expiration : read.entry.expiration = storedTime record.entry.expiration
  pwExpiration : read.entry.pwExpiration = storedTime record.entry.pwExpiration
  keys : List.Forall₂ (SameKey record.entry.name record.entry.realm) read.entry.keys record.entry.keys
  allowedToDelegateTo : read.entry.allowedToDelegateTo = record.entry.allowedToDelegateTo
  allowedToDelegateFrom : read.entry.allowedToDelegateFrom = record.entry.allowedToDelegateFrom
  policy : read.entry.policy = record.entry.policy
  lastPwdChange : read.lastPwdChange = record.lastPwdChange.map fun t => kerberosTime t.seconds
  lastAdminUnlock : read.entry.lastAdminUnlock = record.entry.lastAdminUnlock.map fun t => kerberosTime t.seconds

variable [Crypto] {name : PrincipalName} {realm : Str}

theorem Wraps.keyFromData {data : KeyData} {key : KeyEntry} (h : Wraps master name realm data key) :
    ∃ read, keyFromData data name realm master = .ok read ∧ SameKey name realm read key := by
  obtain ⟨etype, blob, fields, hfields, htype, hdec⟩ := h.wrapped
  obtain ⟨salt, hsalt, heff⟩ := h.salt
  refine ⟨⟨data.kvno.toUInt32, key.key, salt, none⟩, ?_, h.kvno, rfl, heff⟩
  simp [Krb5Rs.keyFromData, keyField, hfields, htype, hdec, hsalt, bind, Except.bind]

theorem mapM_keyFromData {keyData : List KeyData} {keys : List KeyEntry}
    (h : List.Forall₂ (Wraps master name realm) keyData keys) :
    ∃ read, keyData.mapM (fun data => keyFromData data name realm master) = .ok read ∧
      List.Forall₂ (SameKey name realm) read keys := by
  induction h with
  | nil => exact ⟨[], rfl, .nil⟩
  | cons hd _ ih =>
    obtain ⟨key, hkey, hsame⟩ := hd.keyFromData
    obtain ⟨rest, hrest, hall⟩ := ih
    refine ⟨key :: rest, ?_, .cons hsame hall⟩
    simp only [List.mapM_cons, hkey, hrest, bind, Except.bind, pure, Except.pure]

theorem exists_master {merged : MitEntry} {record : PrincipalRecord} {v : UInt16}
    (hversions : VersionsOf clock e record keys v v)
    (hmaster : record.entry.keys = [] → ∀ v, entryMkvno e = .ok v → (keys.get v).isSome)
    (hwraps : WrappedUnder keys merged.principal merged.realm v merged.keyData record.entry.keys) :
    ∃ master, keys.get v = some master ∧
      List.Forall₂ (Wraps master merged.principal merged.realm) merged.keyData record.entry.keys := by
  have hsome : (keys.get v).isSome := by
    unfold WrappedUnder at hwraps
    cases hentries : record.entry.keys with
    | nil =>
      unfold VersionsOf at hversions
      split at hversions
      · exact hmaster hentries v hversions.2
      · exact hversions.2.2
    | cons key entries =>
      rw [hentries] at hwraps
      obtain ⟨data, rest, ⟨master, hget, -⟩, -, -⟩ := List.forall₂_cons_right_iff.mp hwraps
      rw [hget]
      rfl
  obtain ⟨master, hget⟩ := Option.isSome_iff_exists.mp hsome
  refine ⟨master, hget, hwraps.imp ?_⟩
  rintro data key ⟨master', hget', hw⟩
  cases hget.symm.trans hget'
  exact hw

theorem record_round_trip {clock : Clock} {draw : Nat → Bytes} {e merged : MitEntry} {record : PrincipalRecord}
    {keys : MasterKeys} {creator : Option Bytes} {requireAuth : Option Str}
    (hk : ∀ key ∈ record.entry.keys, key.kvno.toNat < 2 ^ 16)
    (hone : OneVersion clock e record keys)
    (hmaster : record.entry.keys = [] → ∀ v, entryMkvno e = .ok v → (keys.get v).isSome)
    (hfrom : Joinable record.entry.allowedToDelegateFrom) (hauth : requireAuthAttr e.tlData = .ok requireAuth)
    (hhistory : HistoryWithinLimits record.passwordHistory) (hmodifier : ReadableModifier e record creator)
    (h : mergeRecord clock draw e record keys creator = .ok merged) :
    ∃ read, recordFromEntry merged keys = .ok read ∧ StoredAs record read ∧
      read.entry.requireAuth = requireAuth := by
  obtain ⟨hm, w, v, hversions, hv, hwraps⟩ := mergeRecord_spec hk h
  obtain rfl := hversions.eq hone
  obtain ⟨master, hget, hwraps⟩ := exists_master hversions hmaster hwraps
  obtain ⟨readKeys, hreadKeys, hsame⟩ := mapM_keyFromData hwraps
  obtain ⟨changed, hchanged, hchanged'⟩ := getU32Tl_stampData hm.changed
  obtain ⟨unlocked, hunlocked, hunlocked'⟩ := getU32Tl_stampData hm.unlocked
  obtain ⟨history, hpolicy⟩ := hm.policy hhistory
  obtain ⟨⟨modTime, modBy⟩, hmodified⟩ := hm.modified hmodifier
  unfold recordFromEntry recordWithoutKeys
  simp only [bind, Except.bind, hv, hget, hreadKeys, hm.delegatedFrom hfrom, hm.requireAuth, hauth, hchanged,
    hunlocked, hmodified, hpolicy, hm.delegatedTo]
  refine ⟨_, rfl, ?_, rfl⟩
  exact
    { name := hm.name
      realm := hm.realm
      attributes := hm.attributes
      maxLife := fromDuration_duration hm.maxLife
      maxRenewableLife := fromDuration_duration hm.maxRenewableLife
      expiration := fromTimestamp_timestamp hm.expiration
      pwExpiration := fromTimestamp_timestamp hm.pwExpiration
      keys := by rw [← hm.name, ← hm.realm]; exact hsame
      allowedToDelegateTo := rfl
      allowedToDelegateFrom := rfl
      policy := rfl
      lastPwdChange := hchanged'
      lastAdminUnlock := hunlocked' }

end

section
attribute [local instance] Alphabet.ascii Crypto.toy

theorem freshRecord_round_trip :
    ∃ read, recordFromEntry (mergedEntry 2 2) twoVersions = .ok read ∧ StoredAs freshRecord read ∧
      read.entry.requireAuth = none := by
  have hmerge : mergeRecord ⟨0, 100, 101⟩ (fun _ => []) freshEntry freshRecord twoVersions none =
      .ok (mergedEntry 2 2) := by
    decide +kernel
  have hmodifier : ReadableModifier freshEntry freshRecord none :=
    ⟨fun _ h => (nomatch h), fun _ _ _ h => (nomatch h)⟩
  exact record_round_trip (by decide) (.inr (by decide)) (fun h => nomatch h) ⟨by decide, by decide⟩ (by decide)
    (fun _ h => nomatch h) hmodifier hmerge

def oddRecord : PrincipalRecord :=
  { freshRecord with
    entry := { freshRecord.entry with
      maxLife := some ⟨0, 0⟩, allowedToDelegateFrom := [⟨[97, 44, 98], rfl⟩], requireAuth := some ⟨[97], rfl⟩ } }

theorem oddRecord_not_read_back :
    ∃ merged read, mergeRecord ⟨0, 100, 101⟩ (fun _ => []) freshEntry oddRecord twoVersions none = .ok merged ∧
      recordFromEntry merged twoVersions = .ok read ∧
      read.entry.maxLife ≠ oddRecord.entry.maxLife ∧
      read.entry.allowedToDelegateFrom ≠ oddRecord.entry.allowedToDelegateFrom ∧
      read.entry.requireAuth ≠ oddRecord.entry.requireAuth := by
  refine ⟨{ mergedEntry 2 2 with
      tlData := [⟨stringAttrs, allowedToDelegateFromAttr ++ [0, 97, 44, 98, 0]⟩, ⟨mkvno, [2, 0]⟩] },
    { freshRecord with
      entry := { freshRecord.entry with allowedToDelegateFrom := [⟨[97], rfl⟩, ⟨[98], rfl⟩] }
      passwordHistory := some {} }, ?_⟩
  decide +kernel

end

end Krb5Rs
