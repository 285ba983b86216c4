import Krb5Rs.MitCodecSound
import Krb5Rs.MitNameSound

/-!
# The klmdb records, both ways

What `encode` writes reads back, and what `decode` accepts is written back as
the bytes it was read from, for principals and for policies; a record cut short
is never accepted. Only what the value does not hold is lost on the way: the
lockout fields and the name type of a principal, and an empty list of key salts.
-/

namespace Krb5Rs

open Wire (Bytes Reads Oblivious Restores bind_eq_ok take_eq_ok)
open Utf8 (Str)
open Codec (finish getEntry getKeysalts getPolicy keysaltText reads_u32 u16 u32)

variable {len : UInt32} {front : Bytes}

namespace Codec

/-! ## Readers that use up their input -/

theorem oblivious_getU16 : Oblivious getU16 := (Wire.oblivious_take _ 2).map _

theorem oblivious_getU32 : Oblivious getU32 := (Wire.oblivious_take _ 4).map _

theorem oblivious_getTl : Oblivious getTl :=
  oblivious_getU16.bind fun _ => oblivious_getU16.bind fun _ => (Wire.oblivious_take _ _).map _

theorem oblivious_getField : Oblivious getField :=
  oblivious_getU16.bind fun _ => oblivious_getU16.bind fun _ => (Wire.oblivious_take _ _).map _

theorem oblivious_getFields (ver kvno : UInt16) : Oblivious (getFields ver kvno) := by
  unfold getFields
  split
  · exact (oblivious_getField.times _).map _
  · exact Wire.oblivious_fail _

theorem oblivious_getKey : Oblivious getKey :=
  oblivious_getU16.bind fun ver => oblivious_getU16.bind fun kvno => oblivious_getFields ver kvno

variable {α : Type} {item : Wire.Reader StoreError α}

theorem oblivious_counted (what : String) (h : Oblivious item)
    (count : UInt16) : Oblivious (counted what item count) := by
  intro bs l rest hread more
  unfold counted at hread ⊢
  rw [Wire.bind_apply] at hread ⊢
  simp only [Wire.remaining, List.length_append] at hread ⊢
  split at hread
  case isTrue => cases hread
  case isFalse hcount =>
    rw [if_neg (by omega)]
    exact h.times count.toNat bs l rest hread more

theorem oblivious_getEntry [Alphabet] (principal : PrincipalName) (realm : Str) :
    Oblivious (getEntry principal realm) := by
  iterate 5 refine oblivious_getU32.bind fun _ => ?_
  iterate 2 refine oblivious_getU16.bind fun _ => ?_
  exact (oblivious_counted _ oblivious_getTl _).bind fun _ => (oblivious_counted _ oblivious_getKey _).map _

theorem oblivious_getKeysalts (len : UInt32) : Oblivious (getKeysalts len) := by
  unfold getKeysalts
  split
  · exact Wire.oblivious_pure none
  refine (Wire.oblivious_take _ _).bind fun bytes => ?_
  unfold keysaltText
  split
  · exact Wire.oblivious_pure _
  · exact Wire.oblivious_fail _

theorem oblivious_getPolicy (name : Str) : Oblivious (getPolicy name) := by
  iterate 12 refine oblivious_getU32.bind fun _ => ?_
  refine (oblivious_getKeysalts _).bind fun _ => ?_
  exact oblivious_getU16.bind fun _ => (oblivious_counted _ oblivious_getTl _).map _

/-! ## Readers undone by the writers -/

variable {bs rest : Bytes} {n : Nat} {w : α → Except StoreError Bytes} {l : List α}

theorem getU16_eq_ok {v : UInt16} (h : getU16 bs = .ok (v, rest)) : bs = u16 v ++ rest := by
  obtain ⟨⟨data, rest'⟩, hdata, h⟩ := bind_eq_ok.mp h
  cases h
  obtain ⟨hlen, rfl⟩ := take_eq_ok hdata
  have hlt := Wire.ofLe_lt data
  rw [hlen] at hlt
  rw [u16, UInt16.toNat_ofNat_of_lt' hlt, ← hlen, Wire.le_ofLe]

theorem getU32_eq_ok {v : UInt32} (h : getU32 bs = .ok (v, rest)) : bs = u32 v ++ rest := by
  obtain ⟨⟨data, rest'⟩, hdata, h⟩ := bind_eq_ok.mp h
  cases h
  obtain ⟨hlen, rfl⟩ := take_eq_ok hdata
  have hlt := Wire.ofLe_lt data
  rw [hlen] at hlt
  rw [u32, UInt32.toNat_ofNat_of_lt' hlt, ← hlen, Wire.le_ofLe]

theorem len16_of_toNat {len : UInt16} (message : String) (h : len.toNat = n) : len16 n message = .ok len := by
  subst h
  rw [len16, if_pos len.toNat_lt, UInt16.ofNat_toNat]

theorem len32_of_toNat (message : String) (h : len.toNat = n) : len32 n message = .ok len := by
  subst h
  rw [len32, if_pos len.toNat_lt, UInt32.ofNat_toNat]

theorem len32_eq_ok {message : String} (h : len32 n message = .ok len) : len.toNat = n := by
  unfold len32 at h
  split at h
  case isTrue hlt =>
    cases h
    exact UInt32.toNat_ofNat_of_lt' hlt
  case isFalse => cases h

theorem restores_tl : Restores tlItem getTl := by
  intro bs item rest h
  obtain ⟨⟨kind, rest₁⟩, hkind, h⟩ := bind_eq_ok.mp h
  obtain ⟨⟨len, rest₂⟩, hlen, h⟩ := bind_eq_ok.mp h
  obtain ⟨⟨data, rest₃⟩, hdata, h⟩ := bind_eq_ok.mp h
  cases h
  obtain ⟨hcount, hrest₂⟩ := take_eq_ok hdata
  refine ⟨_, bind_eq_ok.mpr ⟨len, len16_of_toNat _ hcount.symm, rfl⟩, ?_⟩
  rw [getU16_eq_ok hkind, getU16_eq_ok hlen, hrest₂]
  simp only [List.append_assoc]

theorem restores_field : Restores keyField getField := by
  intro bs field rest h
  obtain ⟨⟨kind, rest₁⟩, hkind, h⟩ := bind_eq_ok.mp h
  obtain ⟨⟨len, rest₂⟩, hlen, h⟩ := bind_eq_ok.mp h
  obtain ⟨⟨data, rest₃⟩, hdata, h⟩ := bind_eq_ok.mp h
  cases h
  obtain ⟨hcount, hrest₂⟩ := take_eq_ok hdata
  refine ⟨_, bind_eq_ok.mpr ⟨len, len16_of_toNat _ hcount.symm, rfl⟩, ?_⟩
  rw [getU16_eq_ok hkind, getU16_eq_ok hlen, hrest₂]
  simp only [List.append_assoc, UInt16.toUInt16_toInt16]

theorem mapM_of_writeAll (h : Wire.writeAll w l = .ok bs) : ∃ parts, l.mapM w = .ok parts ∧ parts.flatten = bs := by
  rw [Wire.writeAll_eq_mapM] at h
  cases hparts : l.mapM w with
  | error e => rw [hparts] at h; cases h
  | ok parts =>
    rw [hparts] at h
    exact ⟨parts, rfl, Except.ok.inj h⟩

theorem restores_key : Restores keyData getKey := by
  intro bs key rest h
  obtain ⟨⟨ver, rest₁⟩, hver, h⟩ := bind_eq_ok.mp h
  obtain ⟨⟨kvno, rest₂⟩, hkvno, h⟩ := bind_eq_ok.mp h
  replace h : getFields ver kvno rest₂ = .ok (key, rest) := h
  unfold getFields at h
  split at h
  case isFalse => cases h
  case isTrue hrange =>
    obtain ⟨⟨fields, rest₃⟩, hfields, h⟩ := bind_eq_ok.mp h
    cases h
    obtain ⟨used, hused, hrest₂⟩ := restores_field.times _ _ _ _ hfields
    obtain ⟨parts, hparts, rfl⟩ := mapM_of_writeAll hused
    have hlen := (Wire.times_eq_ok hfields).1
    have hok : ¬ (¬ (1 ≤ ver.toNat ∧ ver.toNat ≤ 2) ∨ ver.toNat ≠ fields.length ∨ 2 < fields.length) := by
      omega
    refine ⟨u16 ver ++ u16 kvno ++ parts.flatten, ?_, ?_⟩
    · rw [keyData, if_neg hok]
      exact bind_eq_ok.mpr ⟨parts, hparts, rfl⟩
    · rw [getU16_eq_ok hver, getU16_eq_ok hkvno, hrest₂]
      simp only [List.append_assoc]

theorem counted_eq_ok {what : String} (hw : Restores w item) {count : UInt16}
    (h : counted what item count bs = .ok (l, rest)) :
    count.toNat = l.length ∧ ∃ used, Wire.writeAll w l = .ok used ∧ bs = used ++ rest := by
  unfold counted at h
  rw [Wire.bind_apply] at h
  simp only [Wire.remaining] at h
  split at h
  case isTrue => cases h
  case isFalse => exact ⟨(Wire.times_eq_ok h).1.symm, hw.times _ _ _ _ h⟩

theorem finish_eq_ok {read : α × Bytes} {a : α} (h : finish read = .ok a) : read = (a, []) := by
  unfold finish at h
  split at h
  case isTrue hnil => exact Prod.ext (Except.ok.inj h) hnil
  case isFalse => cases h

end Codec

/-! ## Principals -/

section
variable [Alphabet] {key value : Bytes} {e : MitEntry}

theorem decode_eq_ok (h : MitEntry.decode key value = .ok e) :
    parseName key = .ok (e.principal, e.realm) ∧ getEntry e.principal e.realm value = .ok (e, []) := by
  have hname := parseName_of_decode h
  obtain ⟨⟨principal, realm⟩, hparse, h⟩ := bind_eq_ok.mp h
  obtain ⟨read, hread, h⟩ := bind_eq_ok.mp h
  obtain rfl := Codec.finish_eq_ok h
  rw [hname] at hparse
  cases hparse
  exact ⟨hname, hread⟩

/-- What a klmdb value and its key hold: lockout fields are kept elsewhere, and the name type is
the one inferred from the components. -/
structure MitEntry.Bare (e : MitEntry) : Prop where
  named : e.principal.nameString ≠ []
  inferred : e.principal.inferred = e.principal
  lastSuccess : e.lastSuccess = 0
  lastFailed : e.lastFailed = 0
  failAuthCount : e.failAuthCount = 0

theorem MitEntry.Bare.readBack (h : e.Bare) : e.readBack e.principal.inferred e.realm = e := by
  obtain ⟨principal, realm, _, _, _, _, _, lastSuccess, lastFailed, failAuthCount, _, _⟩ := e
  obtain ⟨-, hinferred, rfl, rfl, rfl⟩ := h
  rw [hinferred]
  rfl

theorem encode_of_getEntry {principal : PrincipalName} {realm : Str}
    (h : getEntry principal realm value = .ok (e, [])) : e.encode = .ok (unparseName principal realm, value) ∧
      e.lastSuccess = 0 ∧ e.lastFailed = 0 ∧ e.failAuthCount = 0 := by
  obtain ⟨⟨attributes, rest₁⟩, h₁, h⟩ := bind_eq_ok.mp h
  obtain ⟨⟨maxLife, rest₂⟩, h₂, h⟩ := bind_eq_ok.mp h
  obtain ⟨⟨maxRenewableLife, rest₃⟩, h₃, h⟩ := bind_eq_ok.mp h
  obtain ⟨⟨expiration, rest₄⟩, h₄, h⟩ := bind_eq_ok.mp h
  obtain ⟨⟨pwExpiration, rest₅⟩, h₅, h⟩ := bind_eq_ok.mp h
  obtain ⟨⟨tlCount, rest₆⟩, h₆, h⟩ := bind_eq_ok.mp h
  obtain ⟨⟨keyCount, rest₇⟩, h₇, h⟩ := bind_eq_ok.mp h
  obtain ⟨⟨tlData, rest₈⟩, h₈, h⟩ := bind_eq_ok.mp h
  obtain ⟨⟨keyData, rest₉⟩, h₉, h⟩ := bind_eq_ok.mp h
  cases h
  obtain ⟨htlCount, tl, htl, hrest₇⟩ := Codec.counted_eq_ok Codec.restores_tl h₈
  obtain ⟨hkeyCount, keys, hkeys, hrest₈⟩ := Codec.counted_eq_ok Codec.restores_key h₉
  obtain ⟨parts, hparts, rfl⟩ := Codec.mapM_of_writeAll hkeys
  have hvalue : value = u32 attributes ++ u32 maxLife ++ u32 maxRenewableLife ++
      u32 expiration ++ u32 pwExpiration ++ u16 tlCount ++ u16 keyCount ++ tl ++
      parts.flatten := by
    rw [Codec.getU32_eq_ok h₁, Codec.getU32_eq_ok h₂, Codec.getU32_eq_ok h₃, Codec.getU32_eq_ok h₄,
      Codec.getU32_eq_ok h₅, Codec.getU16_eq_ok h₆, Codec.getU16_eq_ok h₇, hrest₇, hrest₈]
    simp only [List.append_assoc, List.append_nil]
  refine ⟨?_, rfl, rfl, rfl⟩
  refine bind_eq_ok.mpr ⟨tlCount, Codec.len16_of_toNat _ htlCount, ?_⟩
  refine bind_eq_ok.mpr ⟨keyCount, Codec.len16_of_toNat _ hkeyCount, ?_⟩
  refine bind_eq_ok.mpr ⟨tl, (Codec.tlData_eq_writeAll _).trans htl, ?_⟩
  refine bind_eq_ok.mpr ⟨parts, hparts, ?_⟩
  rw [hvalue]

theorem bare_of_decode (h : MitEntry.decode key value = .ok e) : e.Bare := by
  obtain ⟨hname, hread⟩ := decode_eq_ok h
  obtain ⟨hinferred, hne⟩ := inferred_of_parseNameInner hname
  obtain ⟨-, hsuccess, hfailed, hcount⟩ := encode_of_getEntry hread
  exact ⟨hne, hinferred, hsuccess, hfailed, hcount⟩

theorem key_of_encode (h : e.encode = .ok (key, value)) : key = unparseName e.principal e.realm := by
  iterate 4 obtain ⟨_, -, h⟩ := bind_eq_ok.mp h
  exact (Prod.mk.inj (Except.ok.inj h)).1.symm

theorem decode_encode_iff (h : e.encode = .ok (key, value)) : MitEntry.decode key value = .ok e ↔ e.Bare := by
  refine ⟨bare_of_decode, fun hbare => ?_⟩
  have hname := parseName_unparseName e.principal e.realm hbare.named
  rw [← key_of_encode h] at hname
  rw [decode_encode h hname, hbare.readBack]

theorem encode_decode (h : MitEntry.decode key value = .ok e) :
    ∃ key', e.encode = .ok (key', value) ∧ parseName key' = parseName key := by
  obtain ⟨hname, hread⟩ := decode_eq_ok h
  obtain ⟨hinferred, hne⟩ := inferred_of_parseNameInner hname
  refine ⟨_, (encode_of_getEntry hread).1, ?_⟩
  rw [hname, parseName_unparseName _ _ hne, hinferred]

theorem decode_front (h : e.encode = .ok (key, value)) (hfront : front <+: value)
    (hne : front ≠ value) (key' : Bytes) : ∃ err, MitEntry.decode key' front = .error err := by
  obtain ⟨back, rfl⟩ := hfront
  have hback : back ≠ [] := fun hnil => hne (by rw [hnil, List.append_nil])
  unfold MitEntry.decode
  cases hname : parseName key' with
  | error err => exact ⟨err, rfl⟩
  | ok name =>
    have hall := reads_entry h name.1 name.2 []
    rw [List.append_nil] at hall
    obtain ⟨err, herr⟩ := (Codec.oblivious_getEntry name.1 name.2).not_reads_front hall hback
    refine ⟨err, ?_⟩
    show (getEntry name.1 name.2 front >>= finish) = _
    rw [herr]
    rfl

end

/-! ## Policies -/

/-- A policy as it is read back: an empty list of key salts is none. -/
def MitPolicy.readBack (p : MitPolicy) : MitPolicy :=
  { p with allowedKeysalts := p.allowedKeysalts.filter fun salts => salts.bytes ≠ [] }

theorem MitPolicy.readBack_eq_iff (p : MitPolicy) :
    p.readBack = p ↔ ∀ salts, p.allowedKeysalts = some salts → salts.bytes ≠ [] := by
  constructor
  · intro h salts hsalts hnil
    have hkept := congrArg MitPolicy.allowedKeysalts h
    simp [MitPolicy.readBack, hsalts, hnil] at hkept
  · intro h
    have hkept : p.allowedKeysalts.filter (fun salts => salts.bytes ≠ []) = p.allowedKeysalts := by
      cases hsalts : p.allowedKeysalts with
      | none => rfl
      | some salts => simp [h salts hsalts]
    rw [MitPolicy.readBack, hkept]

variable {p : MitPolicy} {value name : Bytes}

theorem reads_keysalts (h : len.toNat = p.keysalts.length) :
    Reads (getKeysalts len) p.keysalts p.readBack.allowedKeysalts := by
  unfold getKeysalts
  by_cases hnil : p.keysalts = []
  · have hzero : len = 0 := UInt32.toNat_inj.mp (by rw [h, hnil]; rfl)
    have hnone : p.readBack.allowedKeysalts = none := by
      unfold MitPolicy.keysalts at hnil
      cases hsalts : p.allowedKeysalts with
      | none => simp [MitPolicy.readBack, hsalts]
      | some text =>
        rw [hsalts] at hnil
        simp [MitPolicy.readBack, hsalts, show text.bytes = [] from hnil]
    rw [if_pos hzero, hnil, hnone]
    exact Wire.reads_pure none
  · have hlen : len ≠ 0 := by
      rintro rfl
      exact hnil (List.length_eq_zero_iff.mp h.symm)
    obtain ⟨text, hsalts, hbytes⟩ : ∃ text, p.allowedKeysalts = some text ∧ text.bytes = p.keysalts := by
      unfold MitPolicy.keysalts at hnil ⊢
      cases hsalts : p.allowedKeysalts with
      | none => rw [hsalts] at hnil; exact absurd rfl hnil
      | some text => exact ⟨text, rfl, rfl⟩
    have hkept : p.readBack.allowedKeysalts = some text := by
      simp [MitPolicy.readBack, hsalts, hbytes, hnil]
    have htake : Reads (Codec.take len.toNat) text.bytes text.bytes :=
      Wire.reads_take_of_length _ (by rw [hbytes, h])
    have htext : Reads (keysaltText text.bytes) [] (some text) := by
      unfold keysaltText
      rw [Utf8.ofUtf8_bytes]
      exact Wire.reads_pure _
    have hboth := htake.bind htext
    rw [List.append_nil, hbytes] at hboth
    rw [if_neg hlen, hkept]
    exact hboth

theorem reads_policy (h : p.encode = .ok value) (name : Str) :
    Reads (getPolicy name) value { p.readBack with name } := by
  obtain ⟨len, hlen, h⟩ := bind_eq_ok.mp h
  obtain ⟨tlCount, htlCount, h⟩ := bind_eq_ok.mp h
  obtain ⟨tl, htl, h⟩ := bind_eq_ok.mp h
  cases h
  rw [Codec.tlData_eq_writeAll] at htl
  have hsalts := reads_keysalts (Codec.len32_eq_ok hlen)
  have htlRead := Codec.reads_counted "tl-data" Codec.codes_tl (Codec.len16_eq_ok htlCount) htl
  simp only [MitPolicy.words, List.flatMap_cons, List.flatMap_nil, List.append_nil, List.append_assoc]
  exact (reads_u32 _).bind ((reads_u32 _).bind ((reads_u32 _).bind ((reads_u32 _).bind
    ((reads_u32 _).bind ((reads_u32 _).bind ((reads_u32 _).bind ((reads_u32 _).bind
    ((reads_u32 _).bind ((reads_u32 _).bind ((reads_u32 _).bind ((reads_u32 _).bind
    (hsalts.bind ((Codec.reads_u16 _).bind (htlRead.map _))))))))))))))

theorem policy_decode_encode (h : p.encode = .ok value) : MitPolicy.decode p.name.bytes value = .ok p.readBack := by
  have hall := reads_policy h p.name []
  rw [List.append_nil] at hall
  unfold MitPolicy.decode
  rw [Utf8.ofUtf8_bytes]
  exact bind_eq_ok.mpr ⟨_, hall, rfl⟩

theorem policy_decode_eq_ok (h : MitPolicy.decode name value = .ok p) :
    ∃ text, Str.ofUtf8 name = some text ∧ getPolicy text value = .ok (p, []) := by
  unfold MitPolicy.decode at h
  split at h
  case h_1 => cases h
  case h_2 text htext =>
    obtain ⟨read, hread, h⟩ := bind_eq_ok.mp h
    obtain rfl := Codec.finish_eq_ok h
    exact ⟨text, htext, hread⟩

theorem getKeysalts_eq_ok {bs rest : Bytes} {salts : Option Str} (h : getKeysalts len bs = .ok (salts, rest)) :
    len.toNat = ((salts.map (·.bytes)).getD []).length ∧ bs = (salts.map (·.bytes)).getD [] ++ rest := by
  unfold getKeysalts at h
  split at h
  case isTrue hzero =>
    cases h
    exact ⟨by rw [hzero]; rfl, rfl⟩
  case isFalse =>
    obtain ⟨⟨data, rest'⟩, hdata, hrest⟩ := bind_eq_ok.mp h
    replace h : keysaltText data rest' = .ok (salts, rest) := hrest
    obtain ⟨hlen, rfl⟩ := take_eq_ok hdata
    cases htext : Str.ofUtf8 data with
    | none =>
      rw [keysaltText, htext] at h
      cases h
    | some text =>
      rw [keysaltText, htext] at h
      cases h
      have hbytes := Utf8.bytes_of_ofUtf8 htext
      exact ⟨by rw [Option.map_some, Option.getD_some, hbytes, hlen],
        by rw [Option.map_some, Option.getD_some, hbytes]⟩

theorem policy_encode_decode (h : MitPolicy.decode name value = .ok p) :
    p.encode = .ok value ∧ p.name.bytes = name := by
  obtain ⟨text, htext, h⟩ := policy_decode_eq_ok h
  obtain ⟨⟨pwMinLife, rest₁⟩, h₁, h⟩ := bind_eq_ok.mp h
  obtain ⟨⟨pwMaxLife, rest₂⟩, h₂, h⟩ := bind_eq_ok.mp h
  obtain ⟨⟨pwMinLength, rest₃⟩, h₃, h⟩ := bind_eq_ok.mp h
  obtain ⟨⟨pwMinClasses, rest₄⟩, h₄, h⟩ := bind_eq_ok.mp h
  obtain ⟨⟨pwHistoryNum, rest₅⟩, h₅, h⟩ := bind_eq_ok.mp h
  obtain ⟨⟨pwMaxFail, rest₆⟩, h₆, h⟩ := bind_eq_ok.mp h
  obtain ⟨⟨pwFailcntInterval, rest₇⟩, h₇, h⟩ := bind_eq_ok.mp h
  obtain ⟨⟨pwLockoutDuration, rest₈⟩, h₈, h⟩ := bind_eq_ok.mp h
  obtain ⟨⟨attributes, rest₉⟩, h₉, h⟩ := bind_eq_ok.mp h
  obtain ⟨⟨maxLife, rest₁₀⟩, h₁₀, h⟩ := bind_eq_ok.mp h
  obtain ⟨⟨maxRenewableLife, rest₁₁⟩, h₁₁, h⟩ := bind_eq_ok.mp h
  obtain ⟨⟨keysaltLen, rest₁₂⟩, h₁₂, h⟩ := bind_eq_ok.mp h
  obtain ⟨⟨allowedKeysalts, rest₁₃⟩, h₁₃, h⟩ := bind_eq_ok.mp h
  obtain ⟨⟨tlCount, rest₁₄⟩, h₁₄, h⟩ := bind_eq_ok.mp h
  obtain ⟨⟨tlData, rest₁₅⟩, h₁₅, h⟩ := bind_eq_ok.mp h
  cases h
  obtain ⟨hkeysaltLen, hrest₁₂⟩ := getKeysalts_eq_ok h₁₃
  obtain ⟨htlCount, tl, htl, hrest₁₄⟩ := Codec.counted_eq_ok Codec.restores_tl h₁₅
  refine ⟨?_, Utf8.bytes_of_ofUtf8 htext⟩
  refine bind_eq_ok.mpr ⟨keysaltLen, Codec.len32_of_toNat _ hkeysaltLen, ?_⟩
  refine bind_eq_ok.mpr ⟨tlCount, Codec.len16_of_toNat _ htlCount, ?_⟩
  refine bind_eq_ok.mpr ⟨tl, (Codec.tlData_eq_writeAll _).trans htl, ?_⟩
  rw [Codec.getU32_eq_ok h₁, Codec.getU32_eq_ok h₂, Codec.getU32_eq_ok h₃, Codec.getU32_eq_ok h₄,
    Codec.getU32_eq_ok h₅, Codec.getU32_eq_ok h₆, Codec.getU32_eq_ok h₇, Codec.getU32_eq_ok h₈,
    Codec.getU32_eq_ok h₉, Codec.getU32_eq_ok h₁₀, Codec.getU32_eq_ok h₁₁, Codec.getU32_eq_ok h₁₂, hrest₁₂,
    Codec.getU16_eq_ok h₁₄, hrest₁₄]
  simp only [MitPolicy.words, MitPolicy.keysalts, List.flatMap_cons, List.flatMap_nil, List.append_nil,
    List.append_assoc]

theorem policy_decode_front (h : p.encode = .ok value) (hfront : front <+: value)
    (hne : front ≠ value) (name : Bytes) : ∃ err, MitPolicy.decode name front = .error err := by
  obtain ⟨back, rfl⟩ := hfront
  have hback : back ≠ [] := fun hnil => hne (by rw [hnil, List.append_nil])
  unfold MitPolicy.decode
  cases Str.ofUtf8 name with
  | none => exact ⟨_, rfl⟩
  | some text =>
    have hall := reads_policy h text []
    rw [List.append_nil] at hall
    obtain ⟨err, herr⟩ := (Codec.oblivious_getPolicy text).not_reads_front hall hback
    refine ⟨err, ?_⟩
    show (getPolicy text front >>= finish) = _
    rw [herr]
    rfl

/-! ## The laws together -/

/-- Reading undoes writing up to what is not stored, writing undoes reading, and nothing shorter
is accepted. -/
theorem record_codec_laws [Alphabet] : ((∀ (e : MitEntry) key value, e.encode = .ok (key, value) →
        (e.principal.nameString ≠ [] →
          MitEntry.decode key value = .ok (e.readBack e.principal.inferred e.realm)) ∧
        (MitEntry.decode key value = .ok e ↔ e.Bare) ∧
        ∀ front, front <+: value → front ≠ value → ∀ key', ∃ err, MitEntry.decode key' front = .error err) ∧
      ∀ key value (e : MitEntry), MitEntry.decode key value = .ok e →
        ∃ key', e.encode = .ok (key', value) ∧ parseName key' = parseName key) ∧
    (∀ (p : MitPolicy) value, p.encode = .ok value →
        MitPolicy.decode p.name.bytes value = .ok p.readBack ∧
        (MitPolicy.decode p.name.bytes value = .ok p ↔ ∀ salts, p.allowedKeysalts = some salts → salts.bytes ≠ []) ∧
        ∀ front, front <+: value → front ≠ value → ∀ name, ∃ err, MitPolicy.decode name front = .error err) ∧
      ∀ name value (p : MitPolicy), MitPolicy.decode name value = .ok p →
        p.encode = .ok value ∧ p.name.bytes = name := by
  refine ⟨⟨?_, fun _ _ _ => encode_decode⟩, ?_, fun _ _ _ => policy_encode_decode⟩
  · intro e key value h
    refine ⟨fun hne => ?_, decode_encode_iff h, fun front hfront hne key' => decode_front h hfront hne key'⟩
    have hname := parseName_unparseName e.principal e.realm hne
    rw [← key_of_encode h] at hname
    exact decode_encode h hname
  · intro p value h
    have hread := policy_decode_encode h
    refine ⟨hread, ?_, fun front hfront hne name => policy_decode_front h hfront hne name⟩
    rw [hread, Except.ok.injEq]
    exact p.readBack_eq_iff

section
attribute [local instance] Alphabet.ascii

def failedEntry : MitEntry :=
  { principal := ⟨1, [⟨[67, 68], rfl⟩]⟩, realm := ⟨[68, 67], rfl⟩, attributes := 128, maxLife := 36000
    lastFailed := 7, failAuthCount := 1, tlData := [⟨1, [0, 0, 0, 0]⟩]
    keyData := [⟨2, 1, [(18, [1, 2, 3]), (0, [])]⟩] }

def emptySaltsPolicy : MitPolicy where
  name := ⟨[67, 68, 68], rfl⟩
  pwMinLength := 8
  pwMinClasses := 2
  pwHistoryNum := 1
  allowedKeysalts := some (Utf8.lossyStr [])

/-- The failure is not in the value, and an empty list reads back as none. -/
theorem failedEntry_not_read_back :
    (∃ key value, failedEntry.encode = .ok (key, value) ∧ MitEntry.decode key value ≠ .ok failedEntry) ∧
    ∃ value, emptySaltsPolicy.encode = .ok value ∧
      MitPolicy.decode emptySaltsPolicy.name.bytes value ≠ .ok emptySaltsPolicy := by
  obtain ⟨⟨key, value⟩, h⟩ := Wire.exists_of_isOk (x := failedEntry.encode) (by decide +kernel)
  obtain ⟨value', h'⟩ := Wire.exists_of_isOk (x := emptySaltsPolicy.encode) (by decide +kernel)
  refine ⟨⟨key, value, h, fun hread => ?_⟩, value', h', ?_⟩
  · exact absurd (bare_of_decode hread).failAuthCount (by decide)
  · rw [policy_decode_encode h', Ne, Except.ok.injEq, MitPolicy.readBack_eq_iff]
    exact fun hkept => hkept _ rfl rfl

theorem record_codec_laws_failedEntry : ∃ key value, failedEntry.encode = .ok (key, value) ∧
      MitEntry.decode key value =
        .ok (failedEntry.readBack failedEntry.principal.inferred failedEntry.realm) := by
  obtain ⟨⟨key, value⟩, h⟩ := Wire.exists_of_isOk (x := failedEntry.encode) (by decide +kernel)
  exact ⟨key, value, h, (record_codec_laws.1.1 failedEntry key value h).1 (by decide)⟩

end

end Krb5Rs
